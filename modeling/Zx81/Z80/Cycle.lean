import Zx81.Bus.Basic
import Zx81.Z80.Registers

namespace Zx81.Z80

/-- The processor in the middle of an instruction, and its bus. -/
structure Core (σ : Type) where
  regs : Registers
  /-- T-states spent since the instruction began. -/
  elapsed : Nat
  /-- Interrupts are held off until one more instruction has run. -/
  holdOff : Bool
  bus : σ

/-- A program of machine cycles. -/
abbrev Exec (σ : Type) := StateM (Core σ)

variable {σ : Type}

@[inline] def inspect {α : Type} (f : Registers → α) : Exec σ α := fun s => (f s.regs, s)

@[inline] def update (f : Registers → Registers) : Exec σ Unit :=
  fun ⟨regs, elapsed, holdOff, bus⟩ => ((), ⟨f regs, elapsed, holdOff, bus⟩)

/-- Holds interrupts off until the next instruction has run. -/
def holdOffInterrupts : Exec σ Unit :=
  fun ⟨regs, elapsed, _, bus⟩ => ((), ⟨regs, elapsed, true, bus⟩)

/-- Spends T-states without a cycle on the bus. -/
def idle (t : Nat) : Exec σ Unit :=
  fun ⟨regs, elapsed, holdOff, bus⟩ => ((), ⟨regs, elapsed + t, holdOff, bus⟩)

variable [Bus σ]

/-- Charges a memory cycle of `t` T-states at an address. -/
def charge (address : UInt16) (t : Nat) : Exec σ Unit :=
  fun ⟨regs, elapsed, holdOff, bus⟩ =>
    match Bus.memoryWait address elapsed t bus with
    | (wait, bus) => ((), ⟨regs, elapsed + (t + wait), holdOff, bus⟩)

def chargePort (port : UInt16) : Exec σ Unit :=
  fun ⟨regs, elapsed, holdOff, bus⟩ =>
    match Bus.portWait port elapsed 4 bus with
    | (wait, bus) => ((), ⟨regs, elapsed + (4 + wait), holdOff, bus⟩)

@[inline] def access (f : σ → UInt8 × σ) : Exec σ UInt8 :=
  fun ⟨regs, elapsed, holdOff, bus⟩ =>
    match f bus with
    | (v, bus) => (v, ⟨regs, elapsed, holdOff, bus⟩)

@[inline] def send (f : σ → σ) : Exec σ Unit :=
  fun ⟨regs, elapsed, holdOff, bus⟩ => ((), ⟨regs, elapsed, holdOff, f bus⟩)

/-- Single T-states with an address on the bus and no access. -/
def internal (address : UInt16) : Nat → Exec σ Unit
  | 0 => pure ()
  | n + 1 => do
    charge address 1
    internal address n

def readByte (address : UInt16) : Exec σ UInt8 := do
  charge address 3
  access (Bus.read address)

def writeByte (address : UInt16) (v : UInt8) : Exec σ Unit := do
  charge address 3
  send (Bus.write address v)

def readPort (port : UInt16) : Exec σ UInt8 := do
  chargePort port
  access (Bus.input port)

def writePort (port : UInt16) (v : UInt8) : Exec σ Unit := do
  chargePort port
  send (Bus.output port v)

def readOpcode (address refresh : UInt16) : Exec σ UInt8 := do
  charge address 4
  access (Bus.fetch address refresh)

/-- Fetches the opcode at PC and counts the refresh register. -/
def fetchOpcode : Exec σ UInt8 := do
  let regs ← inspect id
  let op ← readOpcode regs.pc regs.ir
  update fun r => { r.advanceRefresh with pc := regs.pc + 1 }
  return op

def readWord (address : UInt16) : Exec σ UInt16 := do
  let lo ← readByte address
  let hi ← readByte (address + 1)
  return (Pair.mk hi lo).word

def writeWord (address w : UInt16) : Exec σ Unit := do
  let p := Pair.ofWord w
  writeByte address p.lo
  writeByte (address + 1) p.hi

def fetchByte : Exec σ UInt8 := do
  let pc ← inspect (·.pc)
  update fun r => { r with pc := pc + 1 }
  readByte pc

def fetchWord : Exec σ UInt16 := do
  let lo ← fetchByte
  let hi ← fetchByte
  return (Pair.mk hi lo).word

/-- Pushes a word, high byte first, so that it lies low byte first in memory. -/
def push (w : UInt16) : Exec σ Unit := do
  let p := Pair.ofWord w
  update fun r => { r with sp := r.sp - 1 }
  writeByte (← inspect (·.sp)) p.hi
  update fun r => { r with sp := r.sp - 1 }
  writeByte (← inspect (·.sp)) p.lo

def pop : Exec σ UInt16 := do
  let lo ← readByte (← inspect (·.sp))
  update fun r => { r with sp := r.sp + 1 }
  let hi ← readByte (← inspect (·.sp))
  update fun r => { r with sp := r.sp + 1 }
  return (Pair.mk hi lo).word

end Zx81.Z80
