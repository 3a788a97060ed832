import Mathlib.Data.List.Induction
import Zx81.Machine.Board

namespace Zx81

namespace Keyboard

inductive Call where
  | set (row bit : Nat) (pressed : Bool)
  | releaseAll
  deriving DecidableEq

def act (k : Keyboard) : Call → Keyboard
  | .set row bit pressed => k.set row bit pressed
  | .releaseAll => k.releaseAll

def after (calls : List Call) : Keyboard := calls.foldl act {}

def Call.concerns (row bit : Nat) : Call → Bool
  | set row' bit' _ => row' = row && bit' = bit
  | releaseAll => true

/-- A key was pressed when it was set last, and the keys were not all released since: the last of
the calls that concern it is the press. -/
def Down (calls : List Call) (row bit : Nat) : Prop :=
  (calls.filter (Call.concerns row bit)).getLast? = some (.set row bit true)

instance (calls : List Call) (row bit : Nat) : Decidable (Down calls row bit) :=
  inferInstanceAs (Decidable (_ = _))

section Calls

variable (calls : List Call) (row bit : Nat)

theorem after_concat (call : Call) : after (calls ++ [call]) = (after calls).act call := by
  simp [after]

theorem down_concat_set (row' bit' : Nat) (pressed : Bool) :
    Down (calls ++ [.set row' bit' pressed]) row bit ↔
      if row' = row ∧ bit' = bit then pressed = true else Down calls row bit := by
  by_cases hkey : row' = row ∧ bit' = bit
  · simp [Down, Call.concerns, List.filter_append, hkey]
  · simp [Down, Call.concerns, List.filter_append, hkey]

theorem not_down_concat_releaseAll : ¬ Down (calls ++ [.releaseAll]) row bit := by
  simp [Down, Call.concerns, List.filter_append]

/-- A key is held down from its last press on, until it or all keys are released. -/
theorem isHeld_after (hrow : row < 8) (hbit : bit < 5) :
    (after calls).isHeld row bit = decide (Down calls row bit) := by
  induction calls using List.reverseRecOn with
  | nil => exact isHeld_releaseAll {} row bit
  | append_singleton calls call ih =>
    rw [after_concat]
    cases call with
    | set row' bit' pressed =>
      rw [act, isHeld_set, ih]
      simp only [down_concat_set]
      -- A call for another place leaves this key, whether or not there is a key at that place.
      by_cases hkey : row' = row ∧ bit' = bit
      · obtain ⟨rfl, rfl⟩ := hkey
        simp [hrow, hbit]
      · rw [if_neg fun h => hkey ⟨h.1, h.2.1⟩]
        simp [hkey]
    | releaseAll =>
      rw [act, isHeld_releaseAll, decide_eq_false (not_down_concat_releaseAll calls row bit)]

end Calls

theorem ext_isHeld {k k' : Keyboard}
    (h : ∀ row < 8, ∀ bit < 5, k.isHeld row bit = k'.isHeld row bit) : k = k' := by
  obtain ⟨held⟩ := k
  obtain ⟨held'⟩ := k'
  congr 1
  apply Vector.ext
  intro i hi
  -- Each place belongs to the key whose row and bit are its quotient and remainder.
  have hkey := h (i / 5) (by omega) (i % 5) (by omega)
  have hplace : 5 * (i / 5) + i % 5 = i := Nat.div_add_mod i 5
  have hinside : i / 5 < 8 ∧ i % 5 < 5 := by omega
  simpa only [isHeld, dif_pos hinside, hplace] using hkey

theorem column_eq_true_iff (k : Keyboard) (high : UInt8) (bit : Nat) :
    k.column high bit = true ↔
      ∃ row < 8, high.toNat.testBit row = false ∧ k.isHeld row bit = true := by
  simp [column]

/-- A byte with five bits, clear for a key that is down. -/
theorem testBit_keys (c₀ c₁ c₂ c₃ c₄ : Bool) (bit : Fin 8) :
    ((bif c₀ then (0 : UInt8) else 0x01) ||| (bif c₁ then 0 else 0x02) |||
      (bif c₂ then 0 else 0x04) ||| (bif c₃ then 0 else 0x08) |||
      (bif c₄ then 0 else 0x10)).toNat.testBit bit.val =
        ([!c₀, !c₁, !c₂, !c₃, !c₄].getD bit.val false) := by
  revert c₀ c₁ c₂ c₃ c₄ bit
  decide

theorem testBit_read (k : Keyboard) (high : UInt8) {bit : Nat} (hbit : bit < 8) :
    (k.read high).toNat.testBit bit = (decide (bit < 5) && !k.column high bit) := by
  have hkeys := testBit_keys (k.column high 0) (k.column high 1) (k.column high 2)
    (k.column high 3) (k.column high 4) ⟨bit, hbit⟩
  rw [read, hkeys]
  match bit, hbit with
  | 0, _ | 1, _ | 2, _ | 3, _ | 4, _ | 5, _ | 6, _ | 7, _ => rfl

end Keyboard

namespace Board

/-- The upper byte of a port. -/
theorem testBit_high (port : UInt16) (row : Nat) :
    (port / 256).toUInt8.toNat.testBit row = port.toNat.testBit (8 + row) := by
  have hhigh : (port / 256).toUInt8.toNat = port.toNat / 2 ^ 8 := by
    have hport := port.toNat_lt
    simp only [UInt16.toNat_toUInt8, UInt16.toNat_div, UInt16.reduceToNat]
    omega
  rw [hhigh, Nat.testBit_div_two_pow, Nat.add_comm]

theorem input_odd (b : Board) {port : UInt16} (hodd : port.toNat.testBit 0 = true) :
    b.input port = (0xFF, b) := by
  rw [Nat.testBit_zero, decide_eq_true_eq] at hodd
  rw [input, if_pos hodd]

theorem input_even (b : Board) {port : UInt16} (heven : port.toNat.testBit 0 = false) :
    b.input port = (b.keyboard.read (port / 256).toUInt8 ||| b.portBits,
      b.mapUla (·.latch (.input port))) := by
  rw [Nat.testBit_zero, decide_eq_false_iff_not] at heven
  rw [input, if_neg heven]

theorem testBit_portBits (b : Board) {bit : Nat} (hbit : bit < 8) :
    b.portBits.toNat.testBit bit = (bit == 5 || bit == 6 && !b.wiring.ntsc) := by
  unfold portBits
  cases b.wiring.ntsc
  all_goals
    match bit, hbit with
    | 0, _ | 1, _ | 2, _ | 3, _ | 4, _ | 5, _ | 6, _ | 7, _ => rfl

def withKeys (b : Board) (calls : List Keyboard.Call) : Board :=
  b.mapKeyboard fun _ => Keyboard.after calls

/-- The value read from an even port, bit by bit. -/
theorem testBit_input (b : Board) (calls : List Keyboard.Call) {port : UInt16}
    (heven : port.toNat.testBit 0 = false) (bit : Nat) (hbit : bit < 8) :
    ((b.withKeys calls).input port).1.toNat.testBit bit =
      (decide (bit < 5) && !(Keyboard.after calls).column (port / 256).toUInt8 bit ||
        (bit == 5 || bit == 6 && !b.wiring.ntsc)) := by
  have hread := (Keyboard.after calls).testBit_read (port / 256).toUInt8 hbit
  have hbits := (b.withKeys calls).testBit_portBits hbit
  rw [input_even _ heven, UInt8.toNat_or, Nat.testBit_or, hbits]
  exact congrArg (· || _) hread

theorem column_after (calls : List Keyboard.Call) (port : UInt16) {bit : Nat} (hbit : bit < 5) :
    (Keyboard.after calls).column (port / 256).toUInt8 bit = true ↔
      ∃ row < 8, port.toNat.testBit (8 + row) = false ∧ Keyboard.Down calls row bit := by
  rw [Keyboard.column_eq_true_iff]
  refine exists_congr fun row => and_congr_right fun hrow => ?_
  rw [testBit_high port row, Keyboard.isHeld_after calls row bit hrow hbit, decide_eq_true_eq]

/-- What a port read gives after any calls to the keyboard. An odd port gives FF, and the board is
left as it is. An even port is noted by the video chip as the port access of the instruction, in
place of one noted before, and nothing else changes; a bit of the five low ones is clear if a key of
that column is down in a row whose address bit is clear, bit 5 is set, bit 6 is set for 50 Hz and
bit 7 is clear. Calls that are the same, in the same order, for each single key leave the same
keyboard. -/
theorem keys_scanned (b : Board) (calls : List Keyboard.Call) (port : UInt16) :
    let scanned := b.withKeys calls
    (port.toNat.testBit 0 = true → scanned.input port = (0xFF, scanned)) ∧
      (port.toNat.testBit 0 = false →
        let value := (scanned.input port).1.toNat
        (scanned.input port).2 =
            { scanned with ula := { scanned.ula with event := some (.input port) } } ∧
          (∀ bit < 5, value.testBit bit = false ↔
            ∃ row < 8, port.toNat.testBit (8 + row) = false ∧ Keyboard.Down calls row bit) ∧
          value.testBit 5 = true ∧ value.testBit 6 = !b.wiring.ntsc ∧ value.testBit 7 = false) ∧
      ∀ calls' : List Keyboard.Call,
        (∀ row < 8, ∀ bit < 5, calls'.filter (Keyboard.Call.concerns row bit) =
          calls.filter (Keyboard.Call.concerns row bit)) →
        b.withKeys calls' = b.withKeys calls := by
  intro scanned
  refine ⟨scanned.input_odd, ?_, ?_⟩
  · intro heven value
    refine ⟨congrArg Prod.snd (scanned.input_even heven), ?_, ?_, ?_, ?_⟩
    · intro bit hbit
      have hvalue := testBit_input b calls heven bit (by omega)
      rw [← column_after calls port hbit, hvalue]
      have hlow : (bit == 5) = false ∧ (bit == 6) = false := by
        simp only [beq_eq_false_iff_ne]
        omega
      simp [hbit, hlow]
    · exact testBit_input b calls heven 5 (by decide)
    · simpa using testBit_input b calls heven 6 (by decide)
    · exact testBit_input b calls heven 7 (by decide)
  · intro calls' hsame
    have hkeyboard : Keyboard.after calls' = Keyboard.after calls := by
      apply Keyboard.ext_isHeld
      intro row hrow bit hbit
      have hdown : Keyboard.Down calls' row bit ↔ Keyboard.Down calls row bit := by
        rw [Keyboard.Down, Keyboard.Down, hsame row hrow bit hbit]
      rw [Keyboard.isHeld_after calls' row bit hrow hbit,
        Keyboard.isHeld_after calls row bit hrow hbit, decide_eq_decide]
      exact hdown
    rw [withKeys, withKeys, hkeyboard]

/-- Three rows read together, in two of which a key is down; a key of the third was released, and
one call is for a row that does not exist. -/
theorem twoKeys_scanned :
    let calls : List Keyboard.Call :=
      [.set 0 1 true, .set 1 0 true, .set 8 2 true, .set 7 4 true, .set 1 0 false]
    let calls' : List Keyboard.Call :=
      [.set 7 4 true, .set 1 0 true, .set 1 0 false, .set 0 1 true]
    let b := ofConfig .zx81
    let value := ((b.withKeys calls).input 0x7CFE).1.toNat
    value.testBit 0 = true ∧ value.testBit 1 = false ∧ value.testBit 4 = false ∧
      value.testBit 6 = true ∧ b.withKeys calls' = b.withKeys calls ∧
      ((b.withKeys calls).input 0x7CFE).2.ula.event = some (.input 0x7CFE) := by
  intro calls calls' b value
  obtain ⟨-, heven, horder⟩ := keys_scanned b calls 0x7CFE
  obtain ⟨hnoted, hcolumns, -, hrate, -⟩ := heven (by decide)
  refine ⟨?_, (hcolumns 1 (by decide)).2 (by decide), (hcolumns 4 (by decide)).2 (by decide),
    hrate, horder calls' (by decide), by rw [hnoted]⟩
  have hfirst := mt (hcolumns 0 (by decide)).1 (by decide)
  simpa using hfirst

end Board
end Zx81
