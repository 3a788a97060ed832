import Zx81.Value
import Zx81.Z80.Execute

namespace Zx81.Z80

/-- The processor at an instruction boundary. -/
structure Cpu where
  regs : Registers := {}
  /-- The last instruction enabled interrupts; none is accepted before the next has run. -/
  holdOff : Bool := false
  /-- T-states run since the processor was made. -/
  ticks : Nat := 0
  deriving DecidableEq, Inhabited

/-- What a step of the processor leaves, and the T-states it took. -/
structure Stepped (σ : Type) where
  cpu : Cpu
  bus : σ
  tstates : Nat

namespace Cpu

variable {σ : Type}

/-- Runs a program of machine cycles from an instruction boundary to the next. -/
def run (p : Exec σ Unit) : Cpu → σ → Stepped σ
  | ⟨regs, holdOff, ticks⟩, bus =>
    match p ⟨regs, 0, holdOff, bus⟩ with
    | ((), ⟨regs, elapsed, holdOff, bus⟩) => ⟨⟨regs, holdOff, ticks + elapsed⟩, bus, elapsed⟩

variable [Bus σ]

def step (cpu : Cpu) (bus : σ) : Stepped σ :=
  run (do (decode (← fetchOpcode)).execute) { cpu with holdOff := false } bus

/-- Steps until the processor halts, a number of times at most, on top of steps made and time
spent before. -/
def stepUntilHalt : Nat → Nat → Nat → Cpu → σ → Nat × Stepped σ
  | 0, steps, t, cpu, bus => (steps, ⟨cpu, bus, t⟩)
  | n + 1, steps, t, cpu, bus =>
    if cpu.regs.halted then (steps, ⟨cpu, bus, t⟩)
    else
      match cpu.step bus with
      | ⟨cpu, bus, spent⟩ => stepUntilHalt n (steps + 1) (t + spent) cpu bus

/-- Steps until the processor halts, `n` times at most. The first answer is the number of steps;
the time is that of all of them. -/
def runUntilHalt (cpu : Cpu) (bus : σ) (n : Nat) : Nat × Stepped σ := stepUntilHalt n 0 0 cpu bus

/-- Leaves a halt: PC moves past the halt instruction. -/
def wake (r : Registers) : Registers :=
  if r.halted then { r with halted := false, pc := r.pc + 1 } else r

def acceptInterrupt : Exec σ Unit := do
  update fun r => { wake r with iff1 := false, iff2 := false } |>.advanceRefresh
  internalRefresh 7
  push (← inspect (·.pc))
  if (← inspect (·.im)) = 2 then
    let vector ← inspect fun r => (Pair.mk r.i 0xFF).word
    jumpTo (← readWord vector)
  else
    jumpTo 0x0038

/-- A maskable interrupt is accepted while interrupts are enabled and not held off. -/
def accepts (cpu : Cpu) : Bool := cpu.regs.iff1 && !cpu.holdOff

def interrupt (cpu : Cpu) (bus : σ) : Stepped σ :=
  if cpu.accepts then run acceptInterrupt cpu bus else ⟨cpu, bus, 0⟩

def acceptNmi : Exec σ Unit := do
  update fun r => { wake r with iff1 := false } |>.advanceRefresh
  internalRefresh 5
  push (← inspect (·.pc))
  jumpTo 0x0066

/-- Leaving a halt takes `haltWait` T-states before a non-maskable interrupt is answered. -/
def leaveHalt (haltWait : Nat) : Exec σ Unit := do
  if ← inspect (·.halted) then
    idle haltWait

def nmi (cpu : Cpu) (bus : σ) (haltWait : Nat) : Stepped σ :=
  run (do leaveHalt haltWait; acceptNmi) cpu bus

omit [Bus σ]

/-- The registers as after power-on. The count of T-states goes on. -/
def reset (cpu : Cpu) : Cpu := { ticks := cpu.ticks }

def gauges : List (String × (Cpu → Value)) :=
  [("a", fun c => .u8 c.regs.af.hi), ("f", fun c => .u8 c.regs.af.lo),
   ("b", fun c => .u8 c.regs.bc.hi), ("c", fun c => .u8 c.regs.bc.lo),
   ("d", fun c => .u8 c.regs.de.hi), ("e", fun c => .u8 c.regs.de.lo),
   ("h", fun c => .u8 c.regs.hl.hi), ("l", fun c => .u8 c.regs.hl.lo),
   ("af", fun c => .u16 c.regs.af.word), ("bc", fun c => .u16 c.regs.bc.word),
   ("de", fun c => .u16 c.regs.de.word), ("hl", fun c => .u16 c.regs.hl.word),
   ("af'", fun c => .u16 c.regs.afAlt.word), ("bc'", fun c => .u16 c.regs.bcAlt.word),
   ("de'", fun c => .u16 c.regs.deAlt.word), ("hl'", fun c => .u16 c.regs.hlAlt.word),
   ("ix", fun c => .u16 c.regs.ix.word), ("iy", fun c => .u16 c.regs.iy.word),
   ("ixh", fun c => .u8 c.regs.ix.hi), ("ixl", fun c => .u8 c.regs.ix.lo),
   ("iyh", fun c => .u8 c.regs.iy.hi), ("iyl", fun c => .u8 c.regs.iy.lo),
   ("sp", fun c => .u16 c.regs.sp), ("pc", fun c => .u16 c.regs.pc),
   ("i", fun c => .u8 c.regs.i), ("r", fun c => .u8 c.regs.r),
   ("flags.s", fun c => .bool c.regs.flags.sign), ("flags.z", fun c => .bool c.regs.flags.zero),
   ("flags.y", fun c => .bool c.regs.flags.bit5),
   ("flags.h", fun c => .bool c.regs.flags.halfCarry),
   ("flags.x", fun c => .bool c.regs.flags.bit3), ("flags.p", fun c => .bool c.regs.flags.parity),
   ("flags.n", fun c => .bool c.regs.flags.subtract),
   ("flags.c", fun c => .bool c.regs.flags.carry),
   ("iff1", fun c => .bool c.regs.iff1), ("iff2", fun c => .bool c.regs.iff2),
   ("im", fun c => .u8 c.regs.im), ("halted", fun c => .bool c.regs.halted),
   ("ticks", fun c => .u64 c.ticks)]

def paths : List String := gauges.map (·.1)

def query (cpu : Cpu) (path : String) : Option Value := (gauges.lookup path).map (· cpu)

end Cpu
end Zx81.Z80
