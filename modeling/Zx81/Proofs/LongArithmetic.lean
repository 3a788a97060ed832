import Zx81.Z80.Arithmetic
import Mathlib.Data.Nat.Digits.Lemmas
import Mathlib.Tactic.Linarith
import Mathlib.Tactic.LinearCombination

namespace Zx81.Z80

/-- The bytes of a long number, lowest first, and the flags that the highest byte leaves. -/
structure LongResult where
  bytes : List UInt8
  flags : Flags
  deriving DecidableEq

/-- An operation on two long numbers byte by byte, each byte under the flags of the one below. -/
def chain (op : UInt8 → UInt8 → Flags → Result) : List UInt8 → List UInt8 → Flags → LongResult
  | a :: as, v :: vs, f =>
    let low := op a v f
    let high := chain op as vs low.flags
    ⟨low.value :: high.bytes, high.flags⟩
  | _, _, f => ⟨[], f⟩

theorem length_chain (op : UInt8 → UInt8 → Flags → Result) {as vs : List UInt8}
    (hlen : as.length = vs.length) (f : Flags) : (chain op as vs f).bytes.length = as.length := by
  induction as generalizing vs f with
  | nil => rfl
  | cons a as ih =>
    cases vs with
    | nil => cases hlen
    | cons v vs =>
      have htail := ih (Nat.succ.inj hlen) (op a v f).flags
      simp only [chain, List.length_cons, htail]

/-- A reading of some bytes as the digits of a base. -/
structure Radix where
  base : Nat
  IsDigit : UInt8 → Prop
  digit : UInt8 → Nat
  one_lt_base : 1 < base
  digit_lt {v : UInt8} : IsDigit v → digit v < base

namespace Radix

def number (r : Radix) (bytes : List UInt8) : Nat := Nat.ofDigits r.base (bytes.map r.digit)

/-- Two digits make a digit, and a carry comes in and goes out. The sign tells a sum from a
difference, whose carry is a borrow. -/
def Carries (r : Radix) (sign : ℤ) (op : UInt8 → UInt8 → Flags → Result) : Prop :=
  ∀ a v f, r.IsDigit a → r.IsDigit v → r.IsDigit (op a v f).value ∧
    r.digit (op a v f).value + sign * (r.base * (op a v f).flags.carry.toNat) =
      r.digit a + sign * (r.digit v + f.carry.toNat)

section Chain

variable {r : Radix} {sign : ℤ} {op : UInt8 → UInt8 → Flags → Result}

theorem number_cons (v : UInt8) (vs : List UInt8) :
    r.number (v :: vs) = r.digit v + r.base * r.number vs := by
  rw [number, List.map_cons, Nat.ofDigits_cons, number]

theorem number_lt {bytes : List UInt8} (hbytes : ∀ v ∈ bytes, r.IsDigit v) :
    r.number bytes < r.base ^ bytes.length := by
  have hdigits : ∀ d ∈ bytes.map r.digit, d < r.base := by
    intro d hd
    obtain ⟨v, hv, rfl⟩ := List.mem_map.1 hd
    exact r.digit_lt (hbytes v hv)
  have hlt := Nat.ofDigits_lt_base_pow_length r.one_lt_base hdigits
  rwa [List.length_map] at hlt

theorem chain_carries (hop : r.Carries sign op) {as vs : List UInt8}
    (hlen : as.length = vs.length) (has : ∀ a ∈ as, r.IsDigit a) (hvs : ∀ v ∈ vs, r.IsDigit v)
    (f : Flags) :
    let out := chain op as vs f
    (∀ v ∈ out.bytes, r.IsDigit v) ∧
      (r.number out.bytes + sign * (r.base ^ as.length * out.flags.carry.toNat) : ℤ) =
        r.number as + sign * (r.number vs + f.carry.toNat) := by
  induction as generalizing vs f with
  | nil =>
    cases vs with
    | nil => simp [chain, number]
    | cons v vs => cases hlen
  | cons a as ih =>
    cases vs with
    | nil => cases hlen
    | cons v vs =>
      rw [List.forall_mem_cons] at has hvs
      obtain ⟨hdigit, hlow⟩ := hop a v f has.1 hvs.1
      obtain ⟨hdigits, hhigh⟩ := ih (Nat.succ.inj hlen) has.2 hvs.2 (op a v f).flags
      refine ⟨List.forall_mem_cons.2 ⟨hdigit, hdigits⟩, ?_⟩
      simp only [chain, number_cons, List.length_cons, pow_succ]
      push_cast
      linear_combination hlow + r.base * hhigh

theorem chain_adds (hop : r.Carries 1 op) {as vs : List UInt8} (hlen : as.length = vs.length)
    (has : ∀ a ∈ as, r.IsDigit a) (hvs : ∀ v ∈ vs, r.IsDigit v) (f : Flags) :
    let sum := chain op as vs f
    r.number sum.bytes + r.base ^ as.length * sum.flags.carry.toNat =
      r.number as + r.number vs + f.carry.toNat := by
  intro sum
  obtain ⟨-, hsum⟩ := chain_carries hop hlen has hvs f
  rw [one_mul, one_mul, ← add_assoc] at hsum
  exact_mod_cast hsum

/-- A difference is taken around the end of the range, and the borrow tells that it was. -/
theorem chain_subtracts (hop : r.Carries (-1) op) {as vs : List UInt8}
    (hlen : as.length = vs.length) (has : ∀ a ∈ as, r.IsDigit a) (hvs : ∀ v ∈ vs, r.IsDigit v)
    (f : Flags) :
    let difference := chain op as vs f
    (r.number difference.bytes : ℤ) =
        (r.number as - r.number vs - f.carry.toNat) % (r.base : ℤ) ^ as.length ∧
      (difference.flags.carry ↔ r.number as < r.number vs + f.carry.toNat) := by
  intro difference
  obtain ⟨hdigits, hborrow⟩ := chain_carries hop hlen has hvs f
  have hfits := number_lt hdigits
  rw [length_chain op hlen] at hfits
  have hfits : (r.number difference.bytes : ℤ) < (r.base : ℤ) ^ as.length := by
    exact_mod_cast hfits
  have hdifference : (r.number as - r.number vs - f.carry.toNat : ℤ) =
      r.number difference.bytes +
        (r.base : ℤ) ^ as.length * -(difference.flags.carry.toNat : ℤ) := by
    linear_combination -hborrow
  constructor
  · rw [hdifference, Int.add_mul_emod_self_left]
    exact (Int.emod_eq_of_lt (Int.natCast_nonneg _) hfits).symm
  · cases hcarry : difference.flags.carry with
    | false =>
      simp only [hcarry, Bool.toNat_false] at hdifference
      simp only [Bool.false_eq_true, false_iff]
      omega
    | true =>
      simp only [hcarry, Bool.toNat_true] at hdifference
      simp only [true_iff]
      omega

end Chain

end Radix

namespace Arithmetic

theorem toNat_add (a v : UInt8) (carry : Bool) :
    (add a v carry).value.toNat = (a.toNat + v.toNat + carry.toNat) % 256 :=
  UInt8.toNat_ofNat'

theorem toNat_sub (a v : UInt8) (carry : Bool) :
    (sub a v carry).value.toNat = (256 + a.toNat - v.toNat - carry.toNat) % 256 :=
  UInt8.toNat_ofNat'

theorem testBit_three (v : UInt8) : testBit v 3 = decide (8 ≤ v.toNat % 16) := by
  rw [testBit, Nat.testBit_eq_decide_div_mod_eq, decide_eq_decide]
  omega

/-- The half carry is the one that bit 3 of the operands and of the sum tells. -/
theorem halfCarry_add (a v : UInt8) (carry : Bool) :
    let r := add a v carry
    r.flags.halfCarry = Flags.carryOut (testBit a 3) (testBit v 3) (testBit r.value 3) := by
  intro r
  have hr := toNat_add a v carry
  have hc := carry.toNat_le
  have hlow : r.flags.halfCarry = decide (16 ≤ a.toNat % 16 + v.toNat % 16 + carry.toNat) := rfl
  rw [hlow, Bool.eq_iff_iff]
  simp only [Flags.carryOut, testBit_three, r, hr, Bool.or_eq_true, Bool.and_eq_true,
    Bool.not_eq_true', decide_eq_true_eq, decide_eq_false_iff_not]
  omega

theorem halfCarry_sub (a v : UInt8) (carry : Bool) :
    let r := sub a v carry
    r.flags.halfCarry = Flags.borrowOut (testBit a 3) (testBit v 3) (testBit r.value 3) := by
  intro r
  have hr := toNat_sub a v carry
  have hc := carry.toNat_le
  have hv := v.toNat_lt
  have hlow : r.flags.halfCarry = decide (a.toNat % 16 < v.toNat % 16 + carry.toNat) := rfl
  rw [hlow, Bool.eq_iff_iff]
  simp only [Flags.borrowOut, testBit_three, r, hr, Bool.or_eq_true, Bool.and_eq_true,
    Bool.not_eq_true', decide_eq_true_eq, decide_eq_false_iff_not]
  omega

section Adjustment

variable {a : UInt8} {f : Flags} {low high : Prop} [Decidable low] [Decidable high]

/-- What is added or taken away, once it is known which of the digits are out of range. -/
theorem toNat_decimalCorrection (hlow : f.halfCarry ∨ 9 < a.toNat % 16 ↔ low)
    (hhigh : f.carry ∨ 0x99 < a.toNat ↔ high) :
    (decimalCorrection a f).toNat = (if low then 6 else 0) + if high then 96 else 0 := by
  simp only [decimalCorrection, Bool.or_eq_true, decide_eq_true_eq, hlow, hhigh]
  split <;> split <;> rfl

theorem carry_decimalAdjust (hhigh : f.carry ∨ 0x99 < a.toNat ↔ high) :
    (decimalAdjust a f).flags.carry.toNat = if high then 1 else 0 := by
  have hcarry : (decimalAdjust a f).flags.carry = decide high := by
    rw [← decide_eq_decide.2 hhigh, Bool.decide_or, Bool.decide_eq_true]
    rfl
  rw [hcarry, Bool.toNat, Bool.cond_decide]

end Adjustment

end Arithmetic

/-- An operation on packed decimal digits, the result adjusted. -/
def decimally (op : AluOp) (a v : UInt8) (f : Flags) : Result :=
  let r := op.apply a v f
  Arithmetic.decimalAdjust r.value r.flags

namespace Radix

/-- Two decimal digits packed in a byte, read as a digit of base one hundred. -/
def decimal : Radix where
  base := 100
  IsDigit v := v.toNat / 16 ≤ 9 ∧ v.toNat % 16 ≤ 9
  digit v := 10 * (v.toNat / 16) + v.toNat % 16
  one_lt_base := by decide
  digit_lt := by intro v h; omega

/-- A sum needs its low digit corrected from ten on, and its high digit from one hundred on: there
the uncorrected byte is `0x9A` or more. -/
theorem carries_adc : decimal.Carries 1 (decimally .adc) := by
  rintro a v f ⟨ha, ha'⟩ ⟨hv, hv'⟩
  have hc := f.carry.toNat_le
  let r := Arithmetic.add a v f.carry
  have hr : r.value.toNat = (a.toNat + v.toNat + f.carry.toNat) % 256 :=
    Arithmetic.toNat_add a v f.carry
  have hlow : r.flags.halfCarry ∨ 9 < r.value.toNat % 16 ↔
      10 ≤ a.toNat % 16 + v.toNat % 16 + f.carry.toNat := by
    simp only [r, Arithmetic.add, decide_eq_true_eq] at hr ⊢
    omega
  have hhigh : r.flags.carry ∨ 0x99 < r.value.toNat ↔
      0x9A ≤ a.toNat + v.toNat + f.carry.toNat := by
    simp only [r, Arithmetic.add, decide_eq_true_eq] at hr ⊢
    omega
  have hout : (decimally .adc a v f).value.toNat =
      (r.value.toNat + (Arithmetic.decimalCorrection r.value r.flags).toNat) % 256 :=
    Arithmetic.toNat_add r.value _ false
  have hcarry : (decimally .adc a v f).flags.carry.toNat =
      if 0x9A ≤ a.toNat + v.toNat + f.carry.toNat then 1 else 0 :=
    Arithmetic.carry_decimalAdjust hhigh
  rw [Arithmetic.toNat_decimalCorrection hlow hhigh] at hout
  simp only [decimal]
  -- Each digit is corrected or not, and the carry tells whether the high one was.
  constructor
  · split at hout <;> split at hout <;> omega
  · split at hout <;> split at hout <;> split at hcarry <;> omega

/-- A digit of a difference needs its correction exactly when it has borrowed. -/
theorem carries_sbc : decimal.Carries (-1) (decimally .sbc) := by
  rintro a v f ⟨ha, ha'⟩ ⟨hv, hv'⟩
  have hc := f.carry.toNat_le
  let r := Arithmetic.sub a v f.carry
  have hr : r.value.toNat = (256 + a.toNat - v.toNat - f.carry.toNat) % 256 :=
    Arithmetic.toNat_sub a v f.carry
  have hlow : r.flags.halfCarry ∨ 9 < r.value.toNat % 16 ↔
      a.toNat % 16 < v.toNat % 16 + f.carry.toNat := by
    simp only [r, Arithmetic.sub, decide_eq_true_eq] at hr ⊢
    omega
  have hhigh : r.flags.carry ∨ 0x99 < r.value.toNat ↔
      a.toNat < v.toNat + f.carry.toNat := by
    simp only [r, Arithmetic.sub, decide_eq_true_eq] at hr ⊢
    omega
  have hout : (decimally .sbc a v f).value.toNat =
      (256 + r.value.toNat - (Arithmetic.decimalCorrection r.value r.flags).toNat - 0) % 256 :=
    Arithmetic.toNat_sub r.value _ false
  have hcarry : (decimally .sbc a v f).flags.carry.toNat =
      if a.toNat < v.toNat + f.carry.toNat then 1 else 0 :=
    Arithmetic.carry_decimalAdjust hhigh
  rw [Arithmetic.toNat_decimalCorrection hlow hhigh] at hout
  simp only [decimal]
  constructor
  · split at hout <;> split at hout <;> omega
  · split at hout <;> split at hout <;> split at hcarry <;> omega

end Radix

/-- Packed decimal numbers of any length are added and subtracted by an adjustment after every byte,
with nothing but the flags from byte to byte. -/
theorem decimals_chain (as vs : List UInt8) (hlen : as.length = vs.length)
    (has : ∀ a ∈ as, Radix.decimal.IsDigit a) (hvs : ∀ v ∈ vs, Radix.decimal.IsDigit v)
    (f : Flags) :
    let value := Radix.decimal.number
    let carry := f.carry.toNat
    let sum := chain (decimally .adc) as vs f
    let difference := chain (decimally .sbc) as vs f
    (sum.bytes.length = as.length ∧ (∀ v ∈ sum.bytes, Radix.decimal.IsDigit v) ∧
        value sum.bytes + 100 ^ as.length * sum.flags.carry.toNat =
          value as + value vs + carry) ∧
      difference.bytes.length = as.length ∧
        (∀ v ∈ difference.bytes, Radix.decimal.IsDigit v) ∧
        (value difference.bytes : ℤ) = (value as - value vs - carry) % 100 ^ as.length ∧
        (difference.flags.carry ↔ value as < value vs + carry) := by
  intro value carry sum difference
  obtain ⟨hsum, -⟩ := Radix.chain_carries Radix.carries_adc hlen has hvs f
  obtain ⟨hdifference, -⟩ := Radix.chain_carries Radix.carries_sbc hlen has hvs f
  exact ⟨⟨length_chain _ hlen f, hsum, Radix.chain_adds Radix.carries_adc hlen has hvs f⟩,
    length_chain _ hlen f, hdifference, Radix.chain_subtracts Radix.carries_sbc hlen has hvs f⟩

/-- Five thousand and five thousand and one: their sum carries out of both bytes, and their
difference borrows through both. -/
theorem fiveThousands_chain :
    let sum := chain (decimally .adc) [0x00, 0x50] [0x01, 0x50] {}
    let difference := chain (decimally .sbc) [0x00, 0x50] [0x01, 0x50] {}
    Radix.decimal.number sum.bytes + 10000 * sum.flags.carry.toNat = 10001 ∧
      Radix.decimal.number difference.bytes = 9999 ∧ difference.flags.carry := by
  intro sum difference
  have hleft : Radix.decimal.number [0x00, 0x50] = 5000 := by decide
  have hright : Radix.decimal.number [0x01, 0x50] = 5001 := by decide
  obtain ⟨⟨-, -, hsum⟩, -, -, hdifference, hborrow⟩ :=
    decimals_chain [0x00, 0x50] [0x01, 0x50] rfl (by simp [Radix.decimal]) (by simp [Radix.decimal])
      {}
  rw [hleft, hright] at hsum hdifference hborrow
  exact ⟨hsum, Int.ofNat.inj hdifference, hborrow.2 (by decide)⟩

end Zx81.Z80
