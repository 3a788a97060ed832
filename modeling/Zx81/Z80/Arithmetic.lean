import Zx81.Z80.Flags

namespace Zx81.Z80

@[ext] structure Result where
  value : UInt8
  flags : Flags
  deriving DecidableEq

@[ext] structure WordResult where
  value : UInt16
  flags : Flags
  deriving DecidableEq

namespace Arithmetic

/-- Addition of `a`, `v` and the carry. Half carry leaves bit 3, carry leaves bit 7. -/
def add (a v : UInt8) (carry : Bool) : Result :=
  let sum := a.toNat + v.toNat + carry.toNat
  let value := UInt8.ofNat sum
  ⟨value, { Flags.ofResult value with
    halfCarry := 16 ≤ a.toNat % 16 + v.toNat % 16 + carry.toNat
    parity := Flags.addOverflow (testBit a 7) (testBit v 7) (testBit value 7)
    carry := 256 ≤ sum }⟩

/-- Subtraction of `v` from `a`, less the borrow held in the carry flag. -/
def sub (a v : UInt8) (carry : Bool) : Result :=
  let value := UInt8.ofNat (256 + a.toNat - v.toNat - carry.toNat)
  ⟨value, { Flags.ofResult value with
    halfCarry := a.toNat % 16 < v.toNat % 16 + carry.toNat
    parity := Flags.subOverflow (testBit a 7) (testBit v 7) (testBit value 7)
    subtract := true
    carry := a.toNat < v.toNat + carry.toNat }⟩

/-- The flags of `a - v`, with bits 5 and 3 copied from the operand and not from the result. -/
def compare (a v : UInt8) : Flags :=
  { (sub a v false).flags with bit5 := testBit v 5, bit3 := testBit v 3 }

def and (a v : UInt8) : Result :=
  ⟨a &&& v, { Flags.ofResultParity (a &&& v) with halfCarry := true }⟩

def or (a v : UInt8) : Result := ⟨a ||| v, Flags.ofResultParity (a ||| v)⟩

def xor (a v : UInt8) : Result := ⟨a ^^^ v, Flags.ofResultParity (a ^^^ v)⟩

def inc (v : UInt8) (f : Flags) : Result :=
  let value := v + 1
  ⟨value, { Flags.ofResult value with
    halfCarry := value.toNat % 16 == 0
    parity := value == 0x80
    carry := f.carry }⟩

def dec (v : UInt8) (f : Flags) : Result :=
  let value := v - 1
  ⟨value, { Flags.ofResult value with
    halfCarry := v.toNat % 16 == 0
    parity := value == 0x7F
    subtract := true
    carry := f.carry }⟩

/-- Takes bits 5 and 3 from `v`, keeps sign, zero and parity, and clears half carry and
subtract: what the accumulator operations without a full flag result do. -/
def accumulatorFlags (f : Flags) (v : UInt8) (carry : Bool) : Flags :=
  { f with bit5 := testBit v 5, halfCarry := false, bit3 := testBit v 3,
           subtract := false, carry }

def complement (a : UInt8) (f : Flags) : Result :=
  ⟨~~~a, { accumulatorFlags f (~~~a) f.carry with halfCarry := true, subtract := true }⟩

def setCarry (a : UInt8) (f : Flags) : Flags := accumulatorFlags f a true

/-- Carry complemented and its old value moved to half carry, the instruction `CCF`. -/
def flipCarry (a : UInt8) (f : Flags) : Flags :=
  { accumulatorFlags f a (!f.carry) with halfCarry := f.carry }

/-- The correction that makes a sum or difference of packed decimal digits decimal again. -/
def decimalCorrection (a : UInt8) (f : Flags) : UInt8 :=
  (if f.halfCarry || 9 < a.toNat % 16 then 0x06 else 0) +
  (if f.carry || 0x99 < a.toNat then 0x60 else 0)

/-- Decimal adjustment after the addition or subtraction recorded in the flags, the instruction
`DAA`. -/
def decimalAdjust (a : UInt8) (f : Flags) : Result :=
  let correction := decimalCorrection a f
  let adjusted := if f.subtract then sub a correction false else add a correction false
  ⟨adjusted.value, { adjusted.flags with
    parity := Flags.evenParity adjusted.value
    carry := f.carry || 0x99 < a.toNat }⟩

/-- The flags of `BIT n`: zero and parity are set when the bit is clear. `copied` supplies bits 5
and 3. -/
def bitTest (f : Flags) (n : Fin 8) (v copied : UInt8) : Flags where
  sign := n.val == 7 && testBit v 7
  zero := !testBit v n
  bit5 := testBit copied 5
  halfCarry := true
  bit3 := testBit copied 3
  parity := !testBit v n
  carry := f.carry

def highByte (w : UInt16) : UInt8 := (w / 256).toUInt8

/-- The instruction `ADD` on words: sign, zero and parity are kept; half carry leaves bit 11. -/
def addWord (a v : UInt16) (f : Flags) : WordResult :=
  let sum := a.toNat + v.toNat
  let value := UInt16.ofNat sum
  ⟨value, { accumulatorFlags f (highByte value) (65536 ≤ sum) with
    halfCarry := 4096 ≤ a.toNat % 4096 + v.toNat % 4096 }⟩

def addWordCarry (a v : UInt16) (carry : Bool) : WordResult :=
  let sum := a.toNat + v.toNat + carry.toNat
  let value := UInt16.ofNat sum
  ⟨value, { Flags.ofResult (highByte value) with
    zero := value == 0
    halfCarry := 4096 ≤ a.toNat % 4096 + v.toNat % 4096 + carry.toNat
    parity := Flags.addOverflow (testBit (highByte a) 7) (testBit (highByte v) 7)
      (testBit (highByte value) 7)
    carry := 65536 ≤ sum }⟩

def subWordCarry (a v : UInt16) (carry : Bool) : WordResult :=
  let value := UInt16.ofNat (65536 + a.toNat - v.toNat - carry.toNat)
  ⟨value, { Flags.ofResult (highByte value) with
    zero := value == 0
    halfCarry := a.toNat % 4096 < v.toNat % 4096 + carry.toNat
    parity := Flags.subOverflow (testBit (highByte a) 7) (testBit (highByte v) 7)
      (testBit (highByte value) 7)
    subtract := true
    carry := a.toNat < v.toNat + carry.toNat }⟩

end Arithmetic

inductive AluOp where
  | add
  | adc
  | sub
  | sbc
  | and
  | xor
  | or
  | cp
  deriving DecidableEq

namespace AluOp

/-- The new accumulator and flags. Comparison keeps the accumulator. -/
def apply (op : AluOp) (a v : UInt8) (f : Flags) : Result :=
  match op with
  | .add => Arithmetic.add a v false
  | .adc => Arithmetic.add a v f.carry
  | .sub => Arithmetic.sub a v false
  | .sbc => Arithmetic.sub a v f.carry
  | .and => Arithmetic.and a v
  | .xor => Arithmetic.xor a v
  | .or => Arithmetic.or a v
  | .cp => ⟨a, Arithmetic.compare a v⟩

end AluOp
end Zx81.Z80
