import Zx81.Z80.Block

namespace Zx81.Z80

/-- The byte in memory and the accumulator after `RRD`: the low digits of accumulator and byte,
and the high digit of the byte, move one place to the right. -/
def rotateDigitsRight (a value : UInt8) : UInt8 × UInt8 :=
  (16 * a + value / 16, (a &&& 0xF0) ||| (value &&& 0x0F))

/-- The byte in memory and the accumulator after `RLD`. -/
def rotateDigitsLeft (a value : UInt8) : UInt8 × UInt8 :=
  (16 * value + (a &&& 0x0F), (a &&& 0xF0) ||| (value / 16))

namespace Extended

/-- Flags of a byte loaded from a port or rotated into the accumulator. -/
def inputFlags (f : Flags) (v : UInt8) : Flags :=
  { Flags.ofResultParity v with carry := f.carry }

/-- Flags of I or R loaded into the accumulator: parity shows `iff2`. -/
def loadFlags (r : Registers) (v : UInt8) : Flags :=
  { Flags.ofResult v with parity := r.iff2, carry := r.flags.carry }

variable {σ : Type} [Bus σ]

def loadAccumulator (value : Registers → UInt8) : Exec σ Unit := do
  internalRefresh 1
  update fun r => (r.withA (value r)).withFlags (loadFlags r (value r))

def rotateDigits (f : UInt8 → UInt8 → UInt8 × UInt8) : Exec σ Unit := do
  let hl ← inspect (·.hl.word)
  let value ← readByte hl
  internal hl 4
  let a ← inspect (·.a)
  let (memory, accumulator) := f a value
  writeByte hl memory
  update fun r => (r.withA accumulator).withFlags (inputFlags r.flags accumulator)

def perform : Extended → Exec σ Unit
  | .input reg => do
    let v ← readPort (← inspect (·.bc.word))
    update fun r => r.withFlags (inputFlags r.flags v)
    match reg with
    | some reg => update (·.set8 reg v)
    | none => pure ()
  | .output reg => do
    let v ← inspect fun r => (reg.map r.get8).getD 0
    writePort (← inspect (·.bc.word)) v
  | .subWord r =>
    updateWord .hl fun hl regs => Arithmetic.subWordCarry hl (regs.get16 r) regs.flags.carry
  | .addWord r =>
    updateWord .hl fun hl regs => Arithmetic.addWordCarry hl (regs.get16 r) regs.flags.carry
  | .storeWordAt r => do
    let address ← fetchWord
    writeWord address (← inspect (·.get16 r))
  | .loadWordAt r => do
    let address ← fetchWord
    let w ← readWord address
    update (·.set16 r w)
  | .negate => updateAccumulator fun a _ => Arithmetic.sub 0 a false
  | .returnInterrupt => do
    update fun r => { r with iff1 := r.iff2 }
    jumpTo (← pop)
  | .interruptMode im => update fun r => { r with im }
  | .storeI => do
    internalRefresh 1
    update fun r => { r with i := r.a }
  | .storeR => do
    internalRefresh 1
    update fun r => r.withR r.a
  | .loadI => loadAccumulator (·.i)
  | .loadR => loadAccumulator (·.r)
  | .rotateDigitsRight => rotateDigits Z80.rotateDigitsRight
  | .rotateDigitsLeft => rotateDigits Z80.rotateDigitsLeft
  | .block op dir repeated => Block.perform op dir repeated
  | .nop => pure ()

end Extended
end Zx81.Z80
