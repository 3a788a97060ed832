namespace Zx81.Z80

/-- The eight bits of F, from bit 7 down. Bits 5 and 3 have no documented meaning and usually
copy the same bits of the result. -/
@[ext] structure Flags where
  sign : Bool := false
  zero : Bool := false
  bit5 : Bool := false
  halfCarry : Bool := false
  bit3 : Bool := false
  parity : Bool := false
  subtract : Bool := false
  carry : Bool := false
  deriving DecidableEq, Inhabited

def testBit (v : UInt8) (i : Nat) : Bool := v.toNat.testBit i

namespace Flags

def ofByte (b : UInt8) : Flags where
  sign := testBit b 7
  zero := testBit b 6
  bit5 := testBit b 5
  halfCarry := testBit b 4
  bit3 := testBit b 3
  parity := testBit b 2
  subtract := testBit b 1
  carry := testBit b 0

def toByte (f : Flags) : UInt8 :=
  (bif f.sign then 0x80 else 0) ||| (bif f.zero then 0x40 else 0) |||
  (bif f.bit5 then 0x20 else 0) ||| (bif f.halfCarry then 0x10 else 0) |||
  (bif f.bit3 then 0x08 else 0) ||| (bif f.parity then 0x04 else 0) |||
  (bif f.subtract then 0x02 else 0) ||| (bif f.carry then 0x01 else 0)

@[simp] theorem ofByte_toByte (f : Flags) : ofByte f.toByte = f := by
  obtain ⟨s, z, y, h, x, p, n, c⟩ := f
  revert s z y h x p n c
  decide

private theorem toByte_ofNat : ∀ n : Fin 256, (ofByte (UInt8.ofNat n)).toByte = UInt8.ofNat n := by
  decide +kernel

@[simp] theorem toByte_ofByte (b : UInt8) : (ofByte b).toByte = b := by
  have h := toByte_ofNat ⟨b.toNat, b.toNat_lt⟩
  simpa using h

/-- Sign, zero and the two copied bits of a result, the other flags clear. -/
def ofResult (v : UInt8) : Flags where
  sign := testBit v 7
  zero := v == 0
  bit5 := testBit v 5
  bit3 := testBit v 3

/-- True for an even number of one bits. -/
def evenParity (v : UInt8) : Bool :=
  !(testBit v 0 ^^ testBit v 1 ^^ testBit v 2 ^^ testBit v 3 ^^
    testBit v 4 ^^ testBit v 5 ^^ testBit v 6 ^^ testBit v 7)

/-- The flags of `ofResult` together with the parity of the result. -/
def ofResultParity (v : UInt8) : Flags := { ofResult v with parity := evenParity v }

/-- The carry out of one bit position of `a + v`, told from the operands' bits and the sum's. -/
def carryOut (a v r : Bool) : Bool := (a && v) || ((a || v) && !r)

/-- The borrow out of one bit position of `a - v`, told from the operands' bits and the
difference's. -/
def borrowOut (a v r : Bool) : Bool := (!a && v) || ((!a || v) && r)

/-- Signed overflow of `a + v`, told from the three sign bits: equal operands, another result. -/
def addOverflow (a v r : Bool) : Bool := a == v && a != r

/-- Signed overflow of `a - v`, told from the three sign bits. -/
def subOverflow (a v r : Bool) : Bool := a != v && a != r

end Flags
end Zx81.Z80
