import Zx81.Keyboard.Schedule
import Zx81.Machine.Engine
import Zx81.Time
import Zx81.Video.Raster

namespace Zx81

open Video (Scanline Sync Raster Frame Window)

structure Machine where
  config : Config
  engine : Engine
  /-- The last line. -/
  line : Scanline := {}
  raster : Raster
  schedule : Schedule := {}
  stopped : Bool := false
  /-- Completed pictures. -/
  frames : Nat := 0

structure LineReport where
  tstates : Nat
  sync : Sync
  /-- The line completed a picture. -/
  frameComplete : Bool
  deriving DecidableEq

namespace Machine

/-- The machine of a configuration that has been checked, with empty memory. -/
def ofConfig (c : Config) : Machine where
  config := c
  engine := { board := .ofConfig c }
  raster := (Raster.new c.lineTstates c.frameLines).setInterlaced c.interlaced

def new (c : Config) : Except ConfigError Machine := c.validate.map ofConfig

theorem eq_ofConfig_of_new {c : Config} {m : Machine} (h : new c = .ok m) : m = ofConfig c := by
  unfold new Config.validate at h
  cases hfault : c.fault? with
  | some fault =>
    rw [hfault] at h
    cases h
  | none =>
    rw [hfault] at h
    cases h
    rfl

def mapEngine (f : Engine → Engine) : Machine → Machine
  | ⟨config, engine, line, raster, schedule, stopped, frames⟩ =>
    ⟨config, f engine, line, raster, schedule, stopped, frames⟩

def mapMemory (f : Memory → Memory) : Machine → Machine :=
  mapEngine fun e => e.mapBoard (·.mapMemory f)

def mapKeyboard (f : Keyboard → Keyboard) : Machine → Machine :=
  mapEngine fun e => e.mapBoard (·.mapKeyboard f)

/-- Stores bytes in memory, ROM or not. -/
def load (m : Machine) (a : UInt16) (bytes : List UInt8) : Machine := m.mapMemory (·.load a bytes)

def loadRom (m : Machine) (image : List UInt8) : Option LoadError × Machine :=
  ((m.engine.board.memory.loadRom image).1, m.mapMemory fun memory => (memory.loadRom image).2)

def insertTape (m : Machine) (tape : Tape) : Machine :=
  m.mapEngine fun ⟨cpu, board, _, position⟩ => ⟨cpu, board, tape, position⟩

def reset (m : Machine) : Machine := m.mapEngine Engine.reset

def setKey (m : Machine) (key : Key) (pressed : Bool) : Machine :=
  m.mapKeyboard (·.setKey key pressed)

def setStopped (m : Machine) (stopped : Bool) : Machine := { m with stopped }

/-- Runs instructions on a line that is not the machine's own. -/
def scanOnto : Machine → Scanline → Nat × Machine × Scanline
  | ⟨config, engine, own, raster, schedule, stopped, frames⟩, line =>
    match engine.scan config stopped line with
    | ⟨tstates, engine, line⟩ =>
      (tstates, ⟨config, engine, own, raster, schedule, stopped, frames⟩, line)

/-- After a completed picture: it is counted, and the keys due by now are pressed. -/
def countFrame : Machine → Machine
  | ⟨config, ⟨cpu, board, tape, position⟩, line, raster, schedule, stopped, frames⟩ =>
    match schedule.process (frames + 1) board.keyboard with
    | (schedule, keyboard) =>
      ⟨config, ⟨cpu, board.mapKeyboard fun _ => keyboard, tape, position⟩, line, raster, schedule,
        stopped, frames + 1⟩

def runLine : Machine → LineReport × Machine
  | ⟨config, engine, line, raster, schedule, stopped, frames⟩ =>
    match engine.scan config stopped line with
    | ⟨tstates, engine, line⟩ =>
      match raster.draw line with
      | (done, raster) =>
        let m : Machine := ⟨config, engine, line, raster, schedule, stopped, frames⟩
        (⟨tstates, line.sync, done⟩, if done then m.countFrame else m)

/-- Scanlines until one completes a picture, but no more than a number. -/
def runLines : Nat → Machine → Machine
  | 0, m => m
  | n + 1, m =>
    if m.stopped then m
    else
      match m.runLine with
      | (report, m) => if report.frameComplete then m else runLines n m

/-- The pictures of nominal height after which there is to be one. -/
def patience : Nat := 4

def lineBudget (c : Config) : Nat := Config.counted (c.frameLines * patience)

/-- Runs scanlines until a picture is completed, the machine is stopped, or a program has not
made a picture for too long. The answer is the time run. -/
def runFrame (m : Machine) : Nat × Machine :=
  let start := m.engine.cpu.ticks
  let m := m.runLines (lineBudget m.config)
  (m.engine.cpu.ticks - start, m)

def latestFrame (m : Machine) : Frame := m.raster.screen.latest

def window (m : Machine) : Window :=
  .new m.config.border m.config.ntsc m.raster.geometry.width m.raster.geometry.height

/-- The time that some T-states take on the machine, in seconds and nanoseconds. -/
def duration (m : Machine) (tstates : Nat) : Nat × Nat :=
  (Clock.mk m.config.clockHz).duration ⟨tstates⟩

end Machine
end Zx81
