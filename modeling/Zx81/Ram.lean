namespace Zx81

/-- Memory of 64 KiB. -/
structure Ram where
  cells : Vector UInt8 65536

namespace Ram

def zero : Ram := ⟨.replicate 65536 0⟩

@[inline] def get (m : Ram) (a : UInt16) : UInt8 := getElem m.cells a.toNat a.toNat_lt

@[inline] def set (m : Ram) (a : UInt16) (v : UInt8) : Ram :=
  ⟨m.cells.set a.toNat v a.toNat_lt⟩

/-- Stores bytes one after the other, past the last address on from address 0. -/
def load (m : Ram) (a : UInt16) : List UInt8 → Ram
  | [] => m
  | v :: vs => (m.set a v).load (a + 1) vs

/-- The `n` bytes from an address on. -/
def peek (m : Ram) (a : UInt16) (n : Nat) : List UInt8 :=
  (List.range n).map fun i => m.get (a + UInt16.ofNat i)

@[ext] theorem ext {m m' : Ram} (h : ∀ a, m.get a = m'.get a) : m = m' := by
  obtain ⟨c⟩ := m
  obtain ⟨c'⟩ := m'
  congr 1
  apply Vector.ext
  intro i hi
  have e := h (UInt16.ofNat i)
  simp only [get, UInt16.toNat_ofNat', Nat.mod_eq_of_lt hi] at e
  exact e

@[simp] theorem get_zero (a : UInt16) : zero.get a = 0 := by
  simp [zero, get]

theorem get_set (m : Ram) (a b : UInt16) (v : UInt8) :
    (m.set a v).get b = if a = b then v else m.get b := by
  simp [set, get, Vector.getElem_set, UInt16.toNat_inj]

@[simp] theorem get_set_self (m : Ram) (a : UInt16) (v : UInt8) : (m.set a v).get a = v := by
  simp [get_set]

@[simp] theorem load_nil (m : Ram) (a : UInt16) : m.load a [] = m := rfl

theorem load_cons (m : Ram) (a : UInt16) (v : UInt8) (vs : List UInt8) :
    m.load a (v :: vs) = (m.set a v).load (a + 1) vs := rfl

theorem add_ofNat_succ (a : UInt16) (i : Nat) :
    a + UInt16.ofNat (i + 1) = a + 1 + UInt16.ofNat i := by
  rw [UInt16.ofNat_add, UInt16.add_comm (UInt16.ofNat i), ← UInt16.add_assoc]
  rfl

section Load

variable (m : Ram) (a : UInt16) (bytes : List UInt8)

theorem get_load_of_ne {b : UInt16} (h : ∀ i < bytes.length, a + UInt16.ofNat i ≠ b) :
    (m.load a bytes).get b = m.get b := by
  induction bytes generalizing m a with
  | nil => rfl
  | cons v bytes ih =>
    have hfirst : a ≠ b := by simpa using h 0 (by simp)
    have hrest : ∀ i < bytes.length, a + 1 + UInt16.ofNat i ≠ b := by
      intro i hi
      have hlater := h (i + 1) (by simpa using hi)
      rwa [add_ofNat_succ] at hlater
    rw [load_cons, ih _ _ hrest, get_set, if_neg hfirst]

/-- Bytes that do not go round memory are read back as they were stored. -/
theorem get_load (h : bytes.length ≤ 65536) {i : Nat} (hi : i < bytes.length) :
    (m.load a bytes).get (a + UInt16.ofNat i) = bytes[i] := by
  induction bytes generalizing m a i with
  | nil => simp at hi
  | cons v bytes ih =>
    rw [List.length_cons] at h hi
    rw [load_cons]
    cases i with
    | zero =>
      have haway : ∀ i < bytes.length, a + 1 + UInt16.ofNat i ≠ a := by
        intro i hi heq
        have hnat := congrArg UInt16.toNat heq
        have ha := a.toNat_lt
        simp only [UInt16.toNat_add, UInt16.toNat_ofNat', UInt16.toNat_one] at hnat
        omega
      have hzero : a + UInt16.ofNat 0 = a := by simp
      rw [hzero, get_load_of_ne _ _ _ haway, get_set_self]
      rfl
    | succ i =>
      have hi : i < bytes.length := by omega
      rw [add_ofNat_succ, ih _ _ (by omega) hi]
      rfl

end Load

theorem get_of_peek {m : Ram} {a : UInt16} {n : Nat} {bytes : List UInt8}
    (h : m.peek a n = bytes) {i : Nat} (hi : i < bytes.length) :
    m.get (a + UInt16.ofNat i) = bytes[i] := by
  subst h
  simp [peek]

end Ram
end Zx81
