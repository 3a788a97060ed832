import Zx81.Proofs.LongArithmetic
import Zx81.Z80.Shift

namespace Zx81.Z80

namespace Arithmetic

theorem add_balance (a v : UInt8) (carry : Bool) :
    (add a v carry).value.toNat + 256 * (add a v carry).flags.carry.toNat =
      a.toNat + v.toNat + carry.toNat := by
  have ha := a.toNat_lt
  have hv := v.toNat_lt
  have hc := carry.toNat_le
  rw [toNat_add]
  cases hout : (add a v carry).flags.carry with
  | false =>
    have hsum : ¬256 ≤ a.toNat + v.toNat + carry.toNat := of_decide_eq_false hout
    rw [Bool.toNat_false]
    omega
  | true =>
    have hsum : 256 ≤ a.toNat + v.toNat + carry.toNat := of_decide_eq_true hout
    rw [Bool.toNat_true]
    omega

theorem sub_balance (a v : UInt8) (carry : Bool) :
    (sub a v carry).value.toNat + v.toNat + carry.toNat =
      a.toNat + 256 * (sub a v carry).flags.carry.toNat := by
  have ha := a.toNat_lt
  have hv := v.toNat_lt
  have hc := carry.toNat_le
  rw [toNat_sub]
  cases hout : (sub a v carry).flags.carry with
  | false =>
    have hborrow : ¬a.toNat < v.toNat + carry.toNat := of_decide_eq_false hout
    rw [Bool.toNat_false]
    omega
  | true =>
    have hborrow : a.toNat < v.toNat + carry.toNat := of_decide_eq_true hout
    rw [Bool.toNat_true]
    omega

theorem testBit_seven (v : UInt8) : testBit v 7 = decide (128 ≤ v.toNat) := by
  have hv := v.toNat_lt
  rw [testBit, Nat.testBit_eq_decide_div_mod_eq, decide_eq_decide]
  omega

end Arithmetic

namespace Radix

/-- A byte as a digit of base 256. -/
def binary : Radix where
  base := 256
  IsDigit _ := True
  digit := UInt8.toNat
  one_lt_base := by decide
  digit_lt {v} _ := v.toNat_lt

theorem isDigit_binary (bytes : List UInt8) : ∀ v ∈ bytes, binary.IsDigit v := by
  intro v _
  trivial

@[simp] theorem base_binary : binary.base = 256 := rfl

@[simp] theorem number_binary_nil : binary.number [] = 0 := rfl

@[simp] theorem number_binary_cons (v : UInt8) (vs : List UInt8) :
    binary.number (v :: vs) = v.toNat + 256 * binary.number vs := number_cons v vs

theorem number_binary_concat (vs : List UInt8) (v : UInt8) :
    binary.number (vs ++ [v]) = binary.number vs + 256 ^ vs.length * v.toNat := by
  induction vs with
  | nil => simp
  | cons w vs ih =>
    rw [List.cons_append, number_binary_cons, number_binary_cons, ih, List.length_cons, pow_succ]
    ring

theorem carries_binary_adc : binary.Carries 1 AluOp.adc.apply := by
  intro a v f _ _
  have hbyte := Arithmetic.add_balance a v f.carry
  simp only [binary, AluOp.apply, true_and]
  omega

theorem carries_binary_sbc : binary.Carries (-1) AluOp.sbc.apply := by
  intro a v f _ _
  have hbyte := Arithmetic.sub_balance a v f.carry
  simp only [binary, AluOp.apply, true_and]
  omega

end Radix

/-- The number that bytes hold in two's complement. -/
def signed (bytes : List UInt8) : ℤ :=
  (Radix.binary.number bytes : ℤ).bmod (256 ^ bytes.length)

/-- In two's complement, `n` bytes have room for the number. -/
def FitsSigned (n : Nat) (x : ℤ) : Prop := -(2 : ℤ) ^ (8 * n - 1) ≤ x ∧ x < 2 ^ (8 * n - 1)

theorem signed_singleton (v : UInt8) :
    signed [v] = if 128 ≤ v.toNat then (v.toNat : ℤ) - 256 else v.toNat := by
  have hv := v.toNat_lt
  have hnumber : Radix.binary.number [v] = v.toNat := by simp
  rw [signed, hnumber, Int.bmod_def, List.length_singleton]
  split <;> split <;> omega

/-- Only the highest byte has a sign. -/
theorem signed_cons (v : UInt8) {vs : List UInt8} (hne : vs ≠ []) :
    signed (v :: vs) = v.toNat + 256 * signed vs := by
  have hv := v.toNat_lt
  obtain ⟨half, hhalf⟩ : ∃ half, 256 ^ vs.length = 2 * half := by
    obtain ⟨w, ws, rfl⟩ := List.exists_cons_of_ne_nil hne
    exact ⟨128 * 256 ^ ws.length, by rw [List.length_cons, pow_succ]; ring⟩
  have hfits := Radix.number_lt (Radix.isDigit_binary vs)
  rw [Radix.base_binary, hhalf] at hfits
  simp only [signed, List.length_cons, pow_succ, hhalf, Radix.number_binary_cons, Int.bmod_def]
  -- Both numbers are below their powers of 256, so only the halves are to be compared.
  rw [Int.emod_eq_of_lt (by omega) (by push_cast; omega),
    Int.emod_eq_of_lt (by omega) (by push_cast; omega)]
  split <;> split <;> push_cast at * <;> omega

theorem fitsSigned_succ {n : Nat} (hn : 0 < n) {low x : ℤ} (hlow : 0 ≤ low) (hlt : low < 256) :
    FitsSigned (n + 1) (low + 256 * x) ↔ FitsSigned n x := by
  have hpow : (2 : ℤ) ^ (8 * (n + 1) - 1) = 256 * 2 ^ (8 * n - 1) := by
    have hexp : 8 * (n + 1) - 1 = 8 + (8 * n - 1) := by omega
    rw [hexp, pow_add]
    norm_num
  simp only [FitsSigned, hpow]
  omega

/-- The parity flag tells that the exact result has no room in a signed byte. -/
def TellsOverflow (sign : ℤ) (op : UInt8 → UInt8 → Flags → Result) : Prop :=
  ∀ a v f, (op a v f).flags.parity ↔
    ¬FitsSigned 1 (signed [a] + sign * (signed [v] + f.carry.toNat))

theorem tellsOverflow_adc : TellsOverflow 1 AluOp.adc.apply := by
  intro a v f
  have ha := a.toNat_lt
  have hv := v.toNat_lt
  have hc := f.carry.toNat_le
  have hr := Arithmetic.toNat_add a v f.carry
  have hflag : (AluOp.adc.apply a v f).flags.parity = Flags.addOverflow (testBit a 7) (testBit v 7)
      (testBit (Arithmetic.add a v f.carry).value 7) := rfl
  rw [hflag]
  simp only [Flags.addOverflow, Arithmetic.testBit_seven, hr, Bool.and_eq_true, beq_iff_eq,
    bne_iff_ne, ne_eq, decide_eq_decide, FitsSigned, signed_singleton]
  split <;> split <;> omega

theorem tellsOverflow_sbc : TellsOverflow (-1) AluOp.sbc.apply := by
  intro a v f
  have ha := a.toNat_lt
  have hv := v.toNat_lt
  have hc := f.carry.toNat_le
  have hr := Arithmetic.toNat_sub a v f.carry
  have hflag : (AluOp.sbc.apply a v f).flags.parity = Flags.subOverflow (testBit a 7) (testBit v 7)
      (testBit (Arithmetic.sub a v f.carry).value 7) := rfl
  rw [hflag]
  simp only [Flags.subOverflow, Arithmetic.testBit_seven, hr, Bool.and_eq_true, bne_iff_ne, ne_eq,
    decide_eq_decide, FitsSigned, signed_singleton]
  split <;> split <;> omega

section Chain

variable {sign : ℤ} {op : UInt8 → UInt8 → Flags → Result} {as vs : List UInt8}

/-- The overflow of a long number is that of its highest byte: what the bytes below add is less
than one unit of it. -/
theorem parity_chain (hop : Radix.binary.Carries sign op) (hflag : TellsOverflow sign op)
    (hlen : as.length = vs.length) (hne : as ≠ []) (f : Flags) :
    (chain op as vs f).flags.parity ↔
      ¬FitsSigned as.length (signed as + sign * (signed vs + f.carry.toNat)) := by
  induction as generalizing vs f with
  | nil => exact absurd rfl hne
  | cons a as ih =>
    cases vs with
    | nil => cases hlen
    | cons v vs =>
      have hlen : as.length = vs.length := Nat.succ.inj hlen
      obtain rfl | has := eq_or_ne as []
      · obtain rfl : vs = [] := List.eq_nil_of_length_eq_zero hlen.symm
        exact hflag a v f
      have hpos : 0 < as.length := List.length_pos_of_ne_nil has
      have hvs : vs ≠ [] := List.ne_nil_of_length_pos (hlen ▸ hpos)
      let r := op a v f
      have hr := r.value.toNat_lt
      have hlow : (r.value.toNat + sign * (256 * r.flags.carry.toNat) : ℤ) =
          a.toNat + sign * (v.toNat + f.carry.toNat) := (hop a v f trivial trivial).2
      have hsum : signed (a :: as) + sign * (signed (v :: vs) + f.carry.toNat) =
          r.value.toNat + 256 * (signed as + sign * (signed vs + r.flags.carry.toNat)) := by
        rw [signed_cons a has, signed_cons v hvs]
        linear_combination -hlow
      rw [hsum, List.length_cons, fitsSigned_succ hpos (by omega) (by omega)]
      exact ih hlen has r.flags

end Chain

namespace Shift

/-- A move of a long number by one bit. The bytes are listed as the bits go through them: the first
is shifted, and each of the others takes in what left the one before. -/
def through (first rest : Shift) : List UInt8 → Flags → LongResult
  | [], f => ⟨[], f⟩
  | v :: vs, f =>
    let moved := first.apply v f
    let others := through rest rest vs moved.flags
    ⟨moved.value :: others.bytes, others.flags⟩

@[simp] theorem length_through (first rest : Shift) (bytes : List UInt8) (f : Flags) :
    (through first rest bytes f).bytes.length = bytes.length := by
  induction bytes generalizing first f with
  | nil => rfl
  | cons v vs ih => simp only [through, List.length_cons, ih]

theorem rotateLeftCarry_balance (v : UInt8) (f : Flags) :
    let moved := rotateLeftCarry.apply v f
    moved.value.toNat + 256 * moved.flags.carry.toNat = 2 * v.toNat + f.carry.toNat := by
  intro moved
  have hv := v.toNat_lt
  have hc := f.carry.toNat_le
  have hvalue : moved.value.toNat = (2 * v.toNat + f.carry.toNat) % 256 := by
    have hbit : f.carry.toUInt8.toNat = f.carry.toNat := by cases f.carry <;> rfl
    change (2 * v + f.carry.toUInt8).toNat = _
    rw [UInt8.toNat_add, UInt8.toNat_mul, hbit]
    exact Nat.mod_add_mod _ 256 _
  have hout : moved.flags.carry = decide (128 ≤ v.toNat) := Arithmetic.testBit_seven v
  rw [hvalue, hout]
  by_cases htop : 128 ≤ v.toNat
  · rw [decide_eq_true htop, Bool.toNat_true]
    omega
  · rw [decide_eq_false htop, Bool.toNat_false]
    omega

theorem rotateRightCarry_balance (v : UInt8) (f : Flags) :
    let moved := rotateRightCarry.apply v f
    2 * moved.value.toNat + moved.flags.carry.toNat = v.toNat + 256 * f.carry.toNat := by
  intro moved
  have hv := v.toNat_lt
  have hvalue : moved.value.toNat = v.toNat / 2 + 128 * f.carry.toNat := by
    change (v / 2 + bif f.carry then 0x80 else 0).toNat = _
    cases f.carry <;> simp
    omega
  have hout : moved.flags.carry.toNat = v.toNat % 2 := by
    change (v.toNat.testBit 0).toNat = _
    rw [Nat.toNat_testBit, pow_zero, Nat.div_one]
  rw [hvalue, hout]
  omega

theorem number_rotateLeft (bytes : List UInt8) (f : Flags) :
    let out := through rotateLeftCarry rotateLeftCarry bytes f
    Radix.binary.number out.bytes + 256 ^ bytes.length * out.flags.carry.toNat =
      2 * Radix.binary.number bytes + f.carry.toNat := by
  induction bytes generalizing f with
  | nil => simp [through]
  | cons v vs ih =>
    have hlow := rotateLeftCarry_balance v f
    have hhigh := ih (rotateLeftCarry.apply v f).flags
    simp only [through, Radix.number_binary_cons, List.length_cons, pow_succ] at hlow hhigh ⊢
    linear_combination hlow + 256 * hhigh

/-- The bytes of a move to the right are listed from the highest down. -/
theorem number_rotateRight (bytes : List UInt8) (f : Flags) :
    let out := through rotateRightCarry rotateRightCarry bytes f
    2 * Radix.binary.number out.bytes.reverse + out.flags.carry.toNat =
      Radix.binary.number bytes.reverse + 256 ^ bytes.length * f.carry.toNat := by
  induction bytes generalizing f with
  | nil => simp [through]
  | cons v vs ih =>
    have htop := rotateRightCarry_balance v f
    have hrest := ih (rotateRightCarry.apply v f).flags
    simp only [through, List.reverse_cons, Radix.number_binary_concat, List.length_reverse,
      length_through, List.length_cons, pow_succ] at htop hrest ⊢
    linear_combination hrest + 256 ^ vs.length * htop

section Doubling

variable {bytes : List UInt8} (hne : bytes ≠ []) (f : Flags)

include hne

/-- A shift differs from a rotation through the carry in the bit that enters, which is zero. -/
theorem through_arithmeticLeft : through arithmeticLeft rotateLeftCarry bytes f =
    through rotateLeftCarry rotateLeftCarry bytes { f with carry := false } := by
  obtain ⟨v, vs, rfl⟩ := List.exists_cons_of_ne_nil hne
  rfl

theorem through_logicalRight : through logicalRight rotateRightCarry bytes f =
    through rotateRightCarry rotateRightCarry bytes { f with carry := false } := by
  obtain ⟨v, vs, rfl⟩ := List.exists_cons_of_ne_nil hne
  rfl

theorem number_shiftLeft :
    let out := through arithmeticLeft rotateLeftCarry bytes f
    Radix.binary.number out.bytes + 256 ^ bytes.length * out.flags.carry.toNat =
      2 * Radix.binary.number bytes := by
  rw [through_arithmeticLeft hne]
  exact number_rotateLeft bytes { f with carry := false }

theorem number_shiftRight :
    let out := through logicalRight rotateRightCarry bytes f
    2 * Radix.binary.number out.bytes.reverse + out.flags.carry.toNat =
      Radix.binary.number bytes.reverse := by
  rw [through_logicalRight hne]
  have hrotated := number_rotateRight bytes { f with carry := false }
  rwa [Bool.toNat_false, Nat.mul_zero] at hrotated

end Doubling

end Shift

/-- Binary numbers of `n` bytes, with nothing but the flags handed from byte to byte: sum and
difference are taken around 256 to the `n`, the carry tells that they were, and the parity flag
that the signed result has no room. Shifted left from the lowest byte up a number is doubled, and
shifted right from the highest down it is halved; the carry is the bit that leaves. -/
theorem binaries_chain (as vs : List UInt8) (hlen : as.length = vs.length) (hne : as ≠ [])
    (f : Flags) :
    let n := as.length
    let number := Radix.binary.number
    let carry := f.carry.toNat
    let sum := chain AluOp.adc.apply as vs f
    let difference := chain AluOp.sbc.apply as vs f
    let doubled := Shift.through .arithmeticLeft .rotateLeftCarry as f
    let halved := Shift.through .logicalRight .rotateRightCarry as.reverse f
    (sum.bytes.length = n ∧ number sum.bytes = (number as + number vs + carry) % 256 ^ n ∧
        sum.flags.carry.toNat = (number as + number vs + carry) / 256 ^ n ∧
        (sum.flags.parity ↔ ¬FitsSigned n (signed as + signed vs + carry))) ∧
      (difference.bytes.length = n ∧
        (number difference.bytes : ℤ) = (number as - number vs - carry) % 256 ^ n ∧
        (difference.flags.carry ↔ number as < number vs + carry) ∧
        (difference.flags.parity ↔ ¬FitsSigned n (signed as - signed vs - carry))) ∧
      (doubled.bytes.length = n ∧ number doubled.bytes = 2 * number as % 256 ^ n ∧
        doubled.flags.carry.toNat = 2 * number as / 256 ^ n) ∧
      halved.bytes.length = n ∧ number halved.bytes.reverse = number as / 2 ∧
        halved.flags.carry.toNat = number as % 2 := by
  intro n number carry sum difference doubled halved
  have hpos : 0 < 256 ^ n := by positivity
  have has := Radix.isDigit_binary as
  have hvs := Radix.isDigit_binary vs
  have hfits (bytes : List UInt8) : number bytes < 256 ^ bytes.length :=
    Radix.number_lt (Radix.isDigit_binary bytes)
  refine ⟨?sum, ?difference, ?doubled, ?halved⟩
  case sum =>
    have hlength : sum.bytes.length = n := length_chain _ hlen f
    have hadds := Radix.chain_adds Radix.carries_binary_adc hlen has hvs f
    have hparity := parity_chain Radix.carries_binary_adc tellsOverflow_adc hlen hne f
    obtain ⟨hcarry, hvalue⟩ :=
      (Nat.div_mod_unique hpos).2 ⟨hadds, hlength ▸ hfits sum.bytes⟩
    rw [one_mul, ← add_assoc] at hparity
    exact ⟨hlength, hvalue.symm, hcarry.symm, hparity⟩
  case difference =>
    obtain ⟨hvalue, hborrow⟩ := Radix.chain_subtracts Radix.carries_binary_sbc hlen has hvs f
    have hparity := parity_chain Radix.carries_binary_sbc tellsOverflow_sbc hlen hne f
    rw [neg_one_mul, ← sub_eq_add_neg, ← sub_sub] at hparity
    exact ⟨length_chain _ hlen f, hvalue, hborrow, hparity⟩
  case doubled =>
    have hlength : doubled.bytes.length = n := Shift.length_through _ _ as f
    have hdoubles := Shift.number_shiftLeft hne f
    obtain ⟨hcarry, hvalue⟩ :=
      (Nat.div_mod_unique hpos).2 ⟨hdoubles, hlength ▸ hfits doubled.bytes⟩
    exact ⟨hlength, hvalue.symm, hcarry.symm⟩
  case halved =>
    have hlength : halved.bytes.length = n := by
      rw [Shift.length_through, List.length_reverse]
    have hhalves := Shift.number_shiftRight (List.reverse_ne_nil_iff.2 hne) f
    have hbit := halved.flags.carry.toNat_lt
    rw [List.reverse_reverse] at hhalves
    obtain ⟨hvalue, hcarry⟩ :=
      (Nat.div_mod_unique Nat.two_pos).2 ⟨(Nat.add_comm _ _).trans hhalves, hbit⟩
    exact ⟨hlength, hvalue.symm, hcarry.symm⟩

/-- The lowest number of two bytes and the one after it: the sum carries and overflows, and the
difference borrows and does not. -/
theorem lowest_chain :
    let sum := chain AluOp.adc.apply [0x00, 0x80] [0x01, 0x80] {}
    let difference := chain AluOp.sbc.apply [0x00, 0x80] [0x01, 0x80] {}
    let doubled := Shift.through .arithmeticLeft .rotateLeftCarry [0x00, 0x80] {}
    let halved := Shift.through .logicalRight .rotateRightCarry [0x80, 0x00] {}
    (Radix.binary.number sum.bytes = 1 ∧ sum.flags.carry.toNat = 1 ∧ sum.flags.parity) ∧
      (Radix.binary.number difference.bytes = 65535 ∧ difference.flags.carry ∧
        ¬difference.flags.parity) ∧
      doubled.flags.carry.toNat = 1 ∧ Radix.binary.number halved.bytes.reverse = 0x4000 := by
  intro sum difference doubled halved
  have hleft : Radix.binary.number [0x00, 0x80] = 0x8000 := by decide
  have hright : Radix.binary.number [0x01, 0x80] = 0x8001 := by decide
  have hlowest : signed [0x00, 0x80] = -32768 := by decide
  have hnext : signed [0x01, 0x80] = -32767 := by decide
  obtain ⟨⟨-, hsum, hcarry, hover⟩, ⟨-, hdifference, hborrow, hroom⟩, ⟨-, -, hout⟩, -, hhalf, -⟩ :=
    binaries_chain [0x00, 0x80] [0x01, 0x80] rfl (List.cons_ne_nil _ _) {}
  rw [hleft] at hout hhalf
  rw [hleft, hright] at hsum hcarry hdifference hborrow
  rw [hlowest, hnext] at hover hroom
  refine ⟨⟨hsum, hcarry, hover.2 ?_⟩, ⟨Int.ofNat.inj hdifference, hborrow.2 ?_, ?_⟩, hout, hhalf⟩
  · simp [FitsSigned]
  · decide
  · rw [hroom, not_not]
    simp [FitsSigned]

end Zx81.Z80
