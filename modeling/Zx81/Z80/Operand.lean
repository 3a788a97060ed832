import Zx81.Z80.Cycle
import Zx81.Z80.Instruction

namespace Zx81.Z80

variable {σ : Type} [Bus σ]

def internalRefresh (n : Nat) : Exec σ Unit := do
  internal (← inspect (·.ir)) n

/-- The address of a byte in memory. A displacement is fetched and takes five T-states more to
add. -/
def addressOf : MemoryOperand → Exec σ UInt16
  | .hl => inspect (·.hl.word)
  | .displaced x => do
    let operandPc ← inspect (·.pc)
    let d ← fetchByte
    internal operandPc 5
    inspect fun r => displace (r.index x).word d

def readOperand : Operand → Exec σ UInt8
  | .reg r => inspect (·.get8 r)
  | .mem m => do readByte (← addressOf m)

def writeOperand (o : Operand) (v : UInt8) : Exec σ Unit :=
  match o with
  | .reg r => update (·.set8 r v)
  | .mem m => do writeByte (← addressOf m) v

/-- Replaces an operand by the result of an operation on it; in memory there is one T-state
between the read and the write. -/
def modifyOperand (o : Operand) (f : UInt8 → Flags → Result) : Exec σ Unit :=
  match o with
  | .reg r => update fun regs =>
    let result := f (regs.get8 r) regs.flags
    (regs.set8 r result.value).withFlags result.flags
  | .mem m => do
    let address ← addressOf m
    let v ← readByte address
    internal address 1
    let result := f v (← inspect (·.flags))
    writeByte address result.value
    update (·.withFlags result.flags)

def updateAccumulator (f : UInt8 → Flags → Result) : Exec σ Unit :=
  update fun regs =>
    let result := f regs.a regs.flags
    (regs.withA result.value).withFlags result.flags

def updateWord (r : Reg16) (f : UInt16 → Registers → WordResult) : Exec σ Unit := do
  internalRefresh 7
  update fun regs =>
    let result := f (regs.get16 r) regs
    (regs.set16 r result.value).withFlags result.flags

def taken (c : Option Condition) : Exec σ Bool :=
  inspect fun regs => c.all (·.holds regs.flags)

def jumpTo (address : UInt16) : Exec σ Unit := update fun r => { r with pc := address }

/-- Continues at a displacement from PC; five T-states with the operand's address on the bus. -/
def jumpBy (operandPc : UInt16) (d : UInt8) : Exec σ Unit := do
  internal operandPc 5
  update fun r => { r with pc := displace r.pc d }

end Zx81.Z80
