import Zx81.Config.Reader
import Zx81.Machine.Basic
import Zx81.Tape.File

namespace Zx81

structure Options where
  model : Model := .zx81
  /-- The file with the ROM image. -/
  rom : Option String := none
  /-- The file with the description of a machine, which then decides in place of the model. -/
  config : Option String := none
  /-- The file with the program on the tape. -/
  tape : Option String := none
  frames : Nat := 200
  /-- The frame at which the command that loads from tape is typed. -/
  autoload : Option Nat := none
  ntsc : Bool := false
  border : Option Video.Border := none
  singleStep : Bool := false

namespace Options

/-- The options with one more that has a value. -/
def set (o : Options) (name value : String) : Option Options :=
  match name with
  | "--model" => (Text.byName Model.all Model.name value).map fun v => { o with model := v }
  | "--rom" => some { o with rom := some value }
  | "--config" => some { o with config := some value }
  | "--tape" => some { o with tape := some value }
  | "--frames" => value.toNat?.map fun n => { o with frames := n }
  | "--autoload" => value.toNat?.map fun n => { o with autoload := some n }
  | "--border" =>
    (Text.byName Video.Border.all Video.Border.name value).map fun v => { o with border := some v }
  | _ => none

/-- Reads arguments on top of options read before. The error is the argument that does not
fit. -/
def read (o : Options) : List String → Except String Options
  | [] => .ok o
  | "--ntsc" :: rest => read { o with ntsc := true } rest
  | "--single-step" :: rest => read { o with singleStep := true } rest
  | [name] => .error name
  | name :: value :: rest =>
    match o.set name value with
    | some o => read o rest
    | none => .error name

/-- The machine asked for, from the one that is described or stock. -/
def adjust (o : Options) (c : Config) : Config :=
  let c := if o.ntsc then c.withNtsc else c
  { c with border := o.border.getD c.border, singleStep := c.singleStep || o.singleStep }

end Options

def failWith {α : Type} (message : String) : IO α := throw (IO.userError message)

def loadConfig (o : Options) : IO Config := do
  match o.config with
  | none => return o.adjust (.ofModel o.model)
  | some path =>
    match Config.ofText (← IO.FS.readFile path) with
    | .ok c => return o.adjust c
    | .error e => failWith e.message

def loadMachine (o : Options) : IO Machine := do
  match Machine.new (← loadConfig o), o.rom with
  | .error e, _ => failWith e.message
  | _, none => failWith "no ROM image given"
  | .ok m, some rom =>
    let (error, m) := m.loadRom (← IO.FS.readBinFile rom).toList
    if let some e := error then
      IO.eprintln e.message
    let m ← match o.tape with
      | some path => pure (m.insertTape (.ofFile path (← IO.FS.readBinFile path).toList))
      | none => pure m
    match o.autoload with
    | some frame =>
      return { m with schedule := (m.schedule.typeLoadCommand m.config.model frame).2 }
    | none => return m

/-- Runs a machine until it has completed a number of pictures. -/
partial def runFrames (frames tstates : Nat) (m : Machine) : IO Nat := do
  if m.frames < frames then
    let (spent, m) := m.runFrame
    runFrames frames (tstates + spent) m
  else
    return tstates

end Zx81

/-- Runs the machine that the arguments ask for, and tells how long it ran. -/
def main (args : List String) : IO UInt32 := do
  match Zx81.Options.read {} args with
  | .error name =>
    IO.eprintln ("not understood: " ++ name)
    return 2
  | .ok o =>
    let tstates ← Zx81.runFrames o.frames 0 (← Zx81.loadMachine o)
    IO.println (Nat.repr o.frames ++ " frames, " ++ (Zx81.Ticks.mk tstates).text)
    return 0
