import Zx81.Z80.Arithmetic

namespace Zx81.Z80

/-- The eight ways to move a byte by one bit, in the order of their opcode field. -/
inductive Shift where
  | rotateLeft
  | rotateRight
  | rotateLeftCarry
  | rotateRightCarry
  | arithmeticLeft
  | arithmeticRight
  | leftOne
  | logicalRight
  deriving DecidableEq

namespace Shift

def ofCode : Fin 8 → Shift
  | 0 => rotateLeft
  | 1 => rotateRight
  | 2 => rotateLeftCarry
  | 3 => rotateRightCarry
  | 4 => arithmeticLeft
  | 5 => arithmeticRight
  | 6 => leftOne
  | _ => logicalRight

def towardsHigh : Shift → Bool
  | rotateLeft | rotateLeftCarry | arithmeticLeft | leftOne => true
  | _ => false

def entering (s : Shift) (v : UInt8) (carry : Bool) : Bool :=
  match s with
  | rotateLeft | arithmeticRight => testBit v 7
  | rotateRight => testBit v 0
  | rotateLeftCarry | rotateRightCarry => carry
  | leftOne => true
  | arithmeticLeft | logicalRight => false

def leaving (s : Shift) (v : UInt8) : Bool :=
  bif s.towardsHigh then testBit v 7 else testBit v 0

def move (s : Shift) (v : UInt8) (carry : Bool) : UInt8 :=
  bif s.towardsHigh then 2 * v + (s.entering v carry).toUInt8
  else v / 2 + (bif s.entering v carry then 0x80 else 0)

/-- The move as the bit page does it: every flag replaced. -/
def apply (s : Shift) (v : UInt8) (f : Flags) : Result :=
  let value := s.move v f.carry
  ⟨value, { Flags.ofResultParity value with carry := s.leaving v }⟩

/-- The move as the one-byte accumulator instructions do it: sign, zero and parity kept. -/
def applyAccumulator (s : Shift) (a : UInt8) (f : Flags) : Result :=
  let value := s.move a f.carry
  ⟨value, Arithmetic.accumulatorFlags f value (s.leaving a)⟩

end Shift
end Zx81.Z80
