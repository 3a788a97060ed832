import Zx81.Proofs.BinaryArithmetic
import Zx81.Z80.Pair

namespace Zx81.Z80

/-- An operation on words half by half, with the flags that the high halves leave. -/
def halfByHalf (low high : AluOp) (a v : UInt16) (f : Flags) : WordResult :=
  let lower := low.apply (Pair.ofWord a).lo (Pair.ofWord v).lo f
  let upper := high.apply (Pair.ofWord a).hi (Pair.ofWord v).hi lower.flags
  ⟨(Pair.mk upper.value lower.value).word, upper.flags⟩

/-- A word result, with zero set for the whole of it. -/
def WordResult.zeroOfWord (r : WordResult) : WordResult :=
  { r with flags := { r.flags with zero := r.value == 0 } }

theorem Pair.toNat_ofWord (w : UInt16) :
    w.toNat = 256 * (ofWord w).hi.toNat + (ofWord w).lo.toNat := by
  rw [← toNat_word, word_ofWord]

theorem Pair.eq_word {w : UInt16} {p : Pair} (h : w.toNat = 256 * p.hi.toNat + p.lo.toNat) :
    w = p.word := by
  apply UInt16.toNat_inj.1
  rw [h, toNat_word]

namespace Arithmetic

theorem highByte_word (p : Pair) : highByte p.word = p.hi :=
  congrArg Pair.hi (Pair.ofWord_word p)

/-- The flags of a word result follow from its high byte as those of a byte do; `overflow` tells
parity from it. -/
theorem eq_zeroOfWord {value : UInt16} {lower upper : Result} {half subtract carry : Bool}
    (overflow : UInt8 → Bool)
    (hvalue : value.toNat = 256 * upper.value.toNat + lower.value.toNat)
    (hflags : upper.flags = { Flags.ofResult upper.value with
      halfCarry := half, parity := overflow upper.value, subtract, carry }) :
    (⟨value, { Flags.ofResult (highByte value) with
      zero := value == 0, halfCarry := half, parity := overflow (highByte value), subtract,
      carry }⟩ : WordResult) =
        WordResult.zeroOfWord ⟨(Pair.mk upper.value lower.value).word, upper.flags⟩ := by
  have hword : value = (Pair.mk upper.value lower.value).word := Pair.eq_word hvalue
  have hhigh : highByte value = upper.value := hword ▸ highByte_word _
  rw [hhigh, hword, WordResult.zeroOfWord, hflags]

theorem addWordCarry_halves (a v : UInt16) (f : Flags) :
    addWordCarry a v f.carry = (halfByHalf .adc .adc a v f).zeroOfWord := by
  let x := Pair.ofWord a
  let y := Pair.ofWord v
  let lower := add x.lo y.lo f.carry
  let upper := add x.hi y.hi lower.flags.carry
  have ha : a.toNat = 256 * x.hi.toNat + x.lo.toNat := Pair.toNat_ofWord a
  have hv : v.toNat = 256 * y.hi.toNat + y.lo.toNat := Pair.toNat_ofWord v
  have hx := x.lo.toNat_lt
  have hy := y.lo.toNat_lt
  have hlo := lower.value.toNat_lt
  have hhi := upper.value.toNat_lt
  have hc := f.carry.toNat_le
  have hout := upper.flags.carry.toNat_le
  have hlower : lower.value.toNat + 256 * lower.flags.carry.toNat =
      x.lo.toNat + y.lo.toNat + f.carry.toNat := add_balance x.lo y.lo _
  have hupper : upper.value.toNat + 256 * upper.flags.carry.toNat =
      x.hi.toNat + y.hi.toNat + lower.flags.carry.toNat := add_balance x.hi y.hi _
  have hvalue : (UInt16.ofNat (a.toNat + v.toNat + f.carry.toNat)).toNat =
      256 * upper.value.toNat + lower.value.toNat := by
    rw [UInt16.toNat_ofNat']
    omega
  have hhalf : upper.flags.halfCarry =
      decide (4096 ≤ a.toNat % 4096 + v.toNat % 4096 + f.carry.toNat) := by
    apply decide_eq_decide.2
    omega
  have hcarry : upper.flags.carry = decide (65536 ≤ a.toNat + v.toNat + f.carry.toNat) := by
    apply decide_eq_decide.2
    omega
  let overflow w := Flags.addOverflow (testBit x.hi 7) (testBit y.hi 7) (testBit w 7)
  apply eq_zeroOfWord overflow hvalue
  rw [← hhalf, ← hcarry]
  rfl

theorem subWordCarry_halves (a v : UInt16) (f : Flags) :
    subWordCarry a v f.carry = (halfByHalf .sbc .sbc a v f).zeroOfWord := by
  let x := Pair.ofWord a
  let y := Pair.ofWord v
  let lower := sub x.lo y.lo f.carry
  let upper := sub x.hi y.hi lower.flags.carry
  have ha : a.toNat = 256 * x.hi.toNat + x.lo.toNat := Pair.toNat_ofWord a
  have hv : v.toNat = 256 * y.hi.toNat + y.lo.toNat := Pair.toNat_ofWord v
  have hx := x.lo.toNat_lt
  have hy := y.lo.toNat_lt
  have hlo := lower.value.toNat_lt
  have hhi := upper.value.toNat_lt
  have hc := f.carry.toNat_le
  have hout := upper.flags.carry.toNat_le
  have hlower : lower.value.toNat + y.lo.toNat + f.carry.toNat =
      x.lo.toNat + 256 * lower.flags.carry.toNat := sub_balance x.lo y.lo _
  have hupper : upper.value.toNat + y.hi.toNat + lower.flags.carry.toNat =
      x.hi.toNat + 256 * upper.flags.carry.toNat := sub_balance x.hi y.hi _
  have hvalue : (UInt16.ofNat (65536 + a.toNat - v.toNat - f.carry.toNat)).toNat =
      256 * upper.value.toNat + lower.value.toNat := by
    rw [UInt16.toNat_ofNat']
    omega
  have hhalf : upper.flags.halfCarry =
      decide (a.toNat % 4096 < v.toNat % 4096 + f.carry.toNat) := by
    apply decide_eq_decide.2
    omega
  have hcarry : upper.flags.carry = decide (a.toNat < v.toNat + f.carry.toNat) := by
    apply decide_eq_decide.2
    omega
  let overflow w := Flags.subOverflow (testBit x.hi 7) (testBit y.hi 7) (testBit w 7)
  apply eq_zeroOfWord overflow hvalue
  rw [← hhalf, ← hcarry]
  rfl

theorem addWord_halves (a v : UInt16) (f : Flags) :
    let r := halfByHalf .add .adc a v f
    addWord a v f = ⟨r.value, { f with
      bit5 := r.flags.bit5, halfCarry := r.flags.halfCarry, bit3 := r.flags.bit3,
      subtract := false, carry := r.flags.carry }⟩ := by
  intro r
  have hsum : addWordCarry a v false = r.zeroOfWord :=
    addWordCarry_halves a v { f with carry := false }
  have hkept : addWord a v f = ⟨(addWordCarry a v false).value, { f with
      bit5 := (addWordCarry a v false).flags.bit5
      halfCarry := (addWordCarry a v false).flags.halfCarry
      bit3 := (addWordCarry a v false).flags.bit3
      subtract := false
      carry := (addWordCarry a v false).flags.carry }⟩ := rfl
  rw [hkept, hsum]
  rfl

/-- The half carry of a word sum is the one that bit 11 of the operands and of the sum tells. -/
theorem halfCarry_addWordCarry (a v : UInt16) (f : Flags) :
    let r := addWordCarry a v f.carry
    r.flags.halfCarry = Flags.carryOut (testBit (highByte a) 3) (testBit (highByte v) 3)
      (testBit (highByte r.value) 3) := by
  intro r
  have hr : r = (halfByHalf .adc .adc a v f).zeroOfWord := addWordCarry_halves a v f
  rw [hr]
  simp only [WordResult.zeroOfWord, halfByHalf, highByte_word]
  exact halfCarry_add _ _ _

theorem halfCarry_subWordCarry (a v : UInt16) (f : Flags) :
    let r := subWordCarry a v f.carry
    r.flags.halfCarry = Flags.borrowOut (testBit (highByte a) 3) (testBit (highByte v) 3)
      (testBit (highByte r.value) 3) := by
  intro r
  have hr : r = (halfByHalf .sbc .sbc a v f).zeroOfWord := subWordCarry_halves a v f
  rw [hr]
  simp only [WordResult.zeroOfWord, halfByHalf, highByte_word]
  exact halfCarry_sub _ _ _

end Arithmetic

/-- Word arithmetic is two byte operations one after the other: the sum and the difference with
carry have the flags of the high bytes, and zero for the whole word; the sum without carry takes
carry, half carry and bits 5 and 3 from the high bytes and keeps sign, zero and parity. -/
theorem words_by_halves (a v : UInt16) (f : Flags) :
    Arithmetic.addWordCarry a v f.carry = (halfByHalf .adc .adc a v f).zeroOfWord ∧
      Arithmetic.subWordCarry a v f.carry = (halfByHalf .sbc .sbc a v f).zeroOfWord ∧
      let r := halfByHalf .add .adc a v f
      Arithmetic.addWord a v f = ⟨r.value, { f with
        bit5 := r.flags.bit5, halfCarry := r.flags.halfCarry, bit3 := r.flags.bit3,
        subtract := false, carry := r.flags.carry }⟩ :=
  ⟨Arithmetic.addWordCarry_halves a v f, Arithmetic.subWordCarry_halves a v f,
    Arithmetic.addWord_halves a v f⟩

end Zx81.Z80
