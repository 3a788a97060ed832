import Zx81.Machine.Board
import Zx81.Tape.Loading

namespace Zx81

open Video (Scanline Ula)
open Z80 (Cpu Stepped)

structure Engine where
  cpu : Cpu := {}
  board : Board
  tape : Tape := {}
  /-- The T-state within the frame. -/
  position : Nat := 0

namespace Engine

/-- Lets the processor do something on the board. The answer is the time it took. -/
def onBoard (f : Cpu → Board → Stepped Board) : Engine → Nat × Engine
  | ⟨cpu, board, tape, position⟩ =>
    match f cpu board with
    | ⟨cpu, board, tstates⟩ => (tstates, ⟨cpu, board, tape, position⟩)

def mapBoard (f : Board → Board) : Engine → Engine
  | ⟨cpu, board, tape, position⟩ => ⟨cpu, f board, tape, position⟩

def drawLine (f : Ula → Scanline → Ula × Scanline) : Engine → Scanline → Engine × Scanline
  | ⟨cpu, board, tape, position⟩, line =>
    match board.drawLine f line with
    | (board, line) => (⟨cpu, board, tape, position⟩, line)

def load : Engine → Engine
  | ⟨cpu, ⟨memory, ula, keyboard, qs, wiring⟩, tape, position⟩ =>
    match (Loading.mk cpu memory tape).run with
    | (_, ⟨cpu, memory, tape⟩) => ⟨cpu, ⟨memory, ula, keyboard, qs, wiring⟩, tape, position⟩

/-- Whether a span of T-states that begins at `before` passes a position of the frame, in the
frame it begins in or in the next one. -/
def crosses (frame position before tstates : Nat) : Bool :=
  let after := Config.counted (before + tstates)
  (before < position && position ≤ after) || (frame ≤ after && position ≤ after - frame)

def frameInterruptDue (c : Config) (e : Engine) (tstates : Nat) : Bool :=
  match c.interruptAt with
  | some position => crosses c.frameTstates position e.position tstates
  | none => false

def interruptIf (due : Bool) (e : Engine) : Nat × Engine :=
  bif due then e.onBoard Cpu.interrupt else (0, e)

/-- Whether the interrupt line is active: it is wired to bit 6 of the refresh address. -/
def lineInterruptDue (e : Engine) : Bool := !e.cpu.regs.r.toNat.testBit 6

def advance (c : Config) (tstates : Nat) : Engine → Engine
  | ⟨cpu, board, tape, position⟩ =>
    ⟨cpu, board, tape, Config.counted (position + tstates) % c.frameTstates⟩

/-- Delivers the maskable interrupts after an instruction. The answer is the time spent on those
that were accepted. -/
def deliver (c : Config) (tstates : Nat) (e : Engine) : Nat × Engine :=
  match interruptIf (e.frameInterruptDue c tstates) e with
  | (first, e) =>
    match interruptIf e.lineInterruptDue e with
    | (second, e) => (first + second, e.advance c (tstates + (first + second)))

def lineNmi (e : Engine) (line : Scanline) : Nat × Engine :=
  if e.board.ula.nmi then
    match e.onBoard fun cpu board => cpu.nmi board (board.ula.haltWait line) with
    | (tstates, e) => (tstates, e.mapBoard (·.mapUla (·.charge tstates)))
  else (0, e)

structure Pass where
  tstates : Nat
  engine : Engine
  line : Scanline

def finishLine (tstates : Nat) (e : Engine) (line : Scanline) : Pass :=
  if e.board.ula.expired then
    match e.lineNmi line with
    | (nmi, e) =>
      match e.drawLine Ula.endLine line with
      | (e, line) => ⟨tstates + nmi, e, line⟩
  else ⟨tstates, e, line⟩

def drawInstruction (tstates : Nat) (e : Engine) (line : Scanline) : Engine × Scanline :=
  match e.drawLine (·.emit · tstates) line with
  | (e, line) =>
    match e.drawLine Ula.applyEvent line with
    | (e, line) => e.drawLine (·.count · tstates) line

/-- Runs an instruction and delivers maskable interrupts. The answer is the time of both. -/
def runInstruction (c : Config) (e : Engine) : Nat × Engine :=
  match (e.mapBoard (·.mapUla (·.clearEvent))).load.onBoard Cpu.step with
  | (tstates, e) =>
    match e.deliver c tstates with
    | (taken, e) => (tstates + taken, e)

/-- One turn of the loop: an instruction, its picture, and the end of the line if it is due. -/
def pass (c : Config) (e : Engine) (line : Scanline) : Pass :=
  match e.runInstruction c with
  | (tstates, e) =>
    match e.drawInstruction tstates line with
    | (e, line) => finishLine tstates e line

def limit (c : Config) : Nat := if c.singleStep then 1 else Scanline.cutoff

def lineDone (c : Config) (line : Scanline) : Bool := limit c ≤ line.length || line.hasSync

/-- Turns of the loop until the line is done. Each turn sends samples, so that the line is full
long before the bound is reached. -/
def passes (c : Config) : Nat → Nat → Engine → Scanline → Pass
  | 0, total, e, line => ⟨total, e, line⟩
  | bound + 1, total, e, line =>
    match e.pass c line with
    | ⟨tstates, e, line⟩ =>
      if lineDone c line then ⟨total + tstates, e, line⟩
      else passes c bound (total + tstates) e line

/-- Prepares the line of the last call for the next: its samples are dropped, and after a sync
the next line starts with the time by which it was overrun. -/
def beginLine (e : Engine) (line : Scanline) : Engine × Scanline :=
  let line := line.clearSamples
  if line.hasSync then e.drawLine Ula.carryIn line.resetSync else (e, line)

/-- After a vertical sync the line timer starts again. -/
def endScan : Pass → Pass
  | ⟨tstates, e, line⟩ =>
    ⟨tstates, if line.sync = .vertical then e.mapBoard (·.mapUla (·.restartLine)) else e, line⟩

/-- Runs instructions until a line is done. A stopped machine runs none. -/
def scan (c : Config) (stopped : Bool) (e : Engine) (line : Scanline) : Pass :=
  match e.beginLine line with
  | (e, line) =>
    endScan (if stopped then ⟨0, e, line⟩ else passes c Scanline.cutoff 0 e line)

/-- The state after power-on or reset, with memory, tape and keyboard as they are. -/
def reset : Engine → Engine
  | ⟨cpu, board, tape, _⟩ => ⟨cpu.reset, board.mapUla (·.reset), tape, 0⟩

end Engine
end Zx81
