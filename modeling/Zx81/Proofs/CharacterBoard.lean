import Mathlib.Data.List.Induction
import Zx81.Machine.Board

namespace Zx81

/-- The last byte written to an address. -/
def lastWritten? (a : UInt16) (writes : List (UInt16 × UInt8)) : Option UInt8 :=
  (writes.filter fun w => w.1 = a).getLast?.map Prod.snd

theorem lastWritten?_concat (a : UInt16) (writes : List (UInt16 × UInt8)) (w : UInt16 × UInt8) :
    lastWritten? a (writes ++ [w]) = if w.1 = a then some w.2 else lastWritten? a writes := by
  by_cases h : w.1 = a <;> simp [lastWritten?, List.filter_append, h]

namespace QsBoard

def writeAll (q : QsBoard) (writes : List (UInt16 × UInt8)) : QsBoard :=
  writes.foldl (fun q w => q.write w.1 w.2) q

/-- The address of a character's row in the memory of the board. -/
def rowAddress (character : Fin 64) (row : Fin 8) : UInt16 :=
  UInt16.ofNat (0x8400 + (8 * character.val + row.val))

theorem toNat_rowAddress (character : Fin 64) (row : Fin 8) :
    (rowAddress character row).toNat = 0x8400 + (8 * character.val + row.val) := by
  rw [rowAddress, UInt16.toNat_ofNat', Nat.mod_eq_of_lt]
  omega

theorem isControl_iff (a : UInt16) : isControl a = true ↔ 0x8000 ≤ a ∧ a ≤ 0x83FF := by
  simp only [isControl, Bool.and_eq_true, decide_eq_true_eq, UInt16.le_iff_toNat_le,
    UInt16.lt_iff_toNat_lt, UInt16.reduceToNat]
  omega

theorem isSome_fontIndex?_iff (a : UInt16) :
    (fontIndex? a).isSome = true ↔ 0x8400 ≤ a ∧ a ≤ 0x85FF := by
  simp only [fontIndex?, UInt16.le_iff_toNat_le, UInt16.reduceToNat]
  split
  case isTrue h => simp; omega
  case isFalse h => simp; omega

theorem enabled_write (q : QsBoard) (a : UInt16) (v : UInt8) :
    (q.write a v).enabled = (q.enabled ^^ isControl a) := rfl

theorem bitmap_write (q : QsBoard) (a : UInt16) (v : UInt8) (character : Fin 64) (row : Fin 8) :
    (q.write a v).bitmap character row =
      if a = rowAddress character row then v else q.bitmap character row := by
  have haddress : a = rowAddress character row ↔
      a.toNat = 0x8400 + (8 * character.val + row.val) := by
    rw [← UInt16.toNat_inj, toNat_rowAddress]
  obtain ⟨enabled, font⟩ := q
  simp only [bitmap, write, fontIndex?, haddress]
  by_cases hfont : 0x8400 ≤ a.toNat ∧ a.toNat < 0x8600
  · have hplace : a.toNat - 0x8400 = 8 * character.val + row.val ↔
        a.toNat = 0x8400 + (8 * character.val + row.val) := by omega
    simp only [dif_pos hfont, Vector.getElem_set, hplace]
  · simp only [dif_neg hfont]
    rw [if_neg (by omega)]

section Writes

variable (writes : List (UInt16 × UInt8))

theorem writeAll_concat (q : QsBoard) (w : UInt16 × UInt8) :
    q.writeAll (writes ++ [w]) = (q.writeAll writes).write w.1 w.2 := by
  simp [writeAll]

/-- Every write to a control address switches the board. -/
theorem enabled_writeAll : (writeAll {} writes).enabled =
    decide (writes.countP (fun w => isControl w.1) % 2 = 1) := by
  induction writes using List.reverseRecOn with
  | nil => rfl
  | append_singleton writes w ih =>
    rw [writeAll_concat, enabled_write, ih, List.countP_append, List.countP_singleton]
    cases isControl w.1 with
    | true =>
      rw [if_pos rfl, Bool.xor_true, ← decide_not, decide_eq_decide]
      omega
    | false => rw [if_neg Bool.false_ne_true, Bool.xor_false, Nat.add_zero]

theorem bitmap_writeAll (character : Fin 64) (row : Fin 8) :
    (writeAll {} writes).bitmap character row =
      (lastWritten? (rowAddress character row) writes).getD 0 := by
  induction writes using List.reverseRecOn with
  | nil => simp [writeAll, bitmap, lastWritten?]
  | append_singleton writes w ih =>
    rw [writeAll_concat, bitmap_write, lastWritten?_concat, ih]
    split
    · rfl
    · rfl

end Writes
end QsBoard

namespace Board

open Video (Ula)

def writeAll (b : Board) (writes : List (UInt16 × UInt8)) : Board :=
  writes.foldl (fun b w => write w.1 w.2 b) b

/-- What a write does to a board with the character set board. -/
theorem write_of_qs {b : Board} (hqs : b.wiring.charGenerator = .qs) (a : UInt16) (v : UInt8) :
    write a v b = ⟨if 0x8400 ≤ a ∧ a ≤ 0x85FF then b.memory else b.memory.write a v, b.ula,
      b.keyboard, b.qs.write a v, b.wiring⟩ := by
  obtain ⟨memory, ula, keyboard, qs, wiring⟩ := b
  simp only at hqs
  simp only [write, if_pos hqs, QsBoard.isSome_fontIndex?_iff]
  split
  · rfl
  · rfl

theorem writeAll_of_qs {b : Board} (hqs : b.wiring.charGenerator = .qs)
    (writes : List (UInt16 × UInt8)) :
    (b.writeAll writes).wiring = b.wiring ∧ (b.writeAll writes).qs = b.qs.writeAll writes := by
  induction writes generalizing b with
  | nil => exact ⟨rfl, rfl⟩
  | cons w writes ih =>
    have hwrite := write_of_qs hqs w.1 w.2
    have hwiring : (write w.1 w.2 b).wiring = b.wiring := by rw [hwrite]
    have hfirst : (write w.1 w.2 b).qs = b.qs.write w.1 w.2 := by rw [hwrite]
    obtain ⟨hrestWiring, hrestQs⟩ := ih (b := write w.1 w.2 b) (by rwa [hwiring])
    exact ⟨hrestWiring.trans hwiring, hrestQs.trans (by rw [hfirst]; rfl)⟩

theorem isInverse_eq (code : UInt8) : isInverse code = code.toNat.testBit 7 := by
  have hcode := code.toNat_lt
  rw [isInverse, Nat.testBit_eq_decide_div_mod_eq, decide_eq_decide]
  simp only [UInt8.le_iff_toNat_le, UInt8.reduceToNat]
  omega

theorem rowAddress_character (code : UInt8) (row : Fin 8) :
    QsBoard.rowAddress (character code) row =
      0x8400 + 8 * (code &&& 0x3F).toUInt16 + UInt16.ofNat row.val := by
  have hlow : (code &&& 0x3F).toNat = code.toNat % 64 := Nat.and_two_pow_sub_one_eq_mod _ 6
  rw [← UInt16.toNat_inj, QsBoard.toNat_rowAddress]
  simp only [UInt16.toNat_add, UInt16.toNat_mul, UInt8.toNat_toUInt16, hlow, character,
    UInt16.toNat_ofNat', UInt16.reduceToNat]
  omega

/-- A character fetched while the character set board is on. -/
theorem fetch_of_enabled {b : Board} (hqs : b.wiring.charGenerator = .qs)
    (hon : b.qs.enabled = true) {a : UInt16} (refresh : UInt16) (hstart : b.wiring.displayStart ≤ a)
    (hcode : isInstruction (b.memory.read (a &&& 0x7FFF)) = false) :
    b.fetch a refresh = (0, b.mapUla (·.loadShift
      (b.qs.bitmap (character (b.memory.read (a &&& 0x7FFF))) b.ula.row)
      (isInverse (b.memory.read (a &&& 0x7FFF))))) := by
  have hfitted : (b.hasQs && b.qs.enabled) = true := by simp [hasQs, hqs, hon]
  simp only [fetch, if_pos hstart, fetchDisplay, hcode, Bool.false_eq_true, if_false, bitmap,
    hfitted, if_true]

/-- The character set board of a machine, after any writes from the power-on state and whatever the
main memory held. It is on after an odd number of writes to 8000 to 83FF. A write to 8400 to 85FF
leaves the main memory alone. While it is on, a fetch from the display file of a byte with bit 6
clear gives a NOP and loads the byte written last to the row of the character, zero if there was
none, into the low byte of the shift register, inverted if bit 7 is set, and nothing else changes;
what the refresh address is makes no difference. -/
theorem board_shows_written (c : Config) (hqs : c.charGenerator = .qs) (loaded : Memory)
    (writes : List (UInt16 × UInt8)) :
    let b := ((ofConfig c).mapMemory fun _ => loaded).writeAll writes
    (b.qs.enabled = true ↔
      writes.countP (fun w => 0x8000 ≤ w.1 ∧ w.1 ≤ 0x83FF) % 2 = 1) ∧
    (∀ a v, 0x8400 ≤ a → a ≤ 0x85FF → (write a v b).memory = b.memory) ∧
    (b.qs.enabled = true → ∀ (memory : Memory) (ula : Ula) (a refresh : UInt16),
      c.displayStart ≤ a →
      let shown : Board := { b with memory, ula }
      let code := memory.read (a &&& 0x7FFF)
      let rowAddress := 0x8400 + 8 * (code &&& 0x3F).toUInt16 + UInt16.ofNat ula.row.val
      code.toNat.testBit 6 = false →
      let row := (lastWritten? rowAddress writes).getD 0
      let inverse := ula.shift.inverse
      shown.fetch a refresh = (0, { shown with ula := { ula with shift :=
        { bits := ula.shift.bits ||| row.toUInt16
          inverse := if code.toNat.testBit 7 then inverse ||| 0x00FF else inverse } } })) := by
  intro b
  obtain ⟨hwiring, hboard⟩ :=
    writeAll_of_qs (b := (ofConfig c).mapMemory fun _ => loaded) hqs writes
  have hfitted : b.wiring.charGenerator = .qs := (congrArg Wiring.charGenerator hwiring).trans hqs
  refine ⟨?_, ?_, ?_⟩
  · have hcontrol : writes.countP (fun w => QsBoard.isControl w.1) =
        writes.countP (fun w => 0x8000 ≤ w.1 ∧ w.1 ≤ 0x83FF) := by
      apply List.countP_congr
      intro w _
      simp only [QsBoard.isControl_iff, decide_eq_true_eq]
    rw [hboard, ← hcontrol]
    exact (congrArg (· = true) (QsBoard.enabled_writeAll writes)).to_iff.trans decide_eq_true_iff
  · intro a v hfirst hlast
    rw [write_of_qs hfitted, if_pos ⟨hfirst, hlast⟩]
  · intro hon memory ula a refresh hstart shown code rowAddress hcode row inverse
    have hdisplay : shown.wiring.displayStart ≤ a := by
      change b.wiring.displayStart ≤ a
      rw [hwiring]
      exact hstart
    have hbitmap : b.qs.bitmap (character code) ula.row =
        (lastWritten? rowAddress writes).getD 0 := by
      have haddress : QsBoard.rowAddress (character code) ula.row = rowAddress :=
        rowAddress_character code ula.row
      rw [hboard, ← haddress]
      exact QsBoard.bitmap_writeAll writes (character code) ula.row
    have hfetch := fetch_of_enabled (b := shown) hfitted hon refresh hdisplay hcode
    rw [hfetch, isInverse_eq]
    change (0, shown.mapUla (·.loadShift (b.qs.bitmap (character code) ula.row)
      (code.toNat.testBit 7))) = _
    rw [hbitmap]
    cases code.toNat.testBit 7 <;> rfl

/-- The row of a character is written twice, and the character is shown inverted behind bits that
are still on their way. -/
theorem rewrittenRow_shown :
    let c : Config := { Config.zx81 with charGenerator := .qs }
    let memory := (Memory.ofConfig c).write 0x4000 0x83
    let ula : Ula := { lineLength := 207, row := ⟨2, by decide⟩, shift := ⟨0xF000, 0x8000⟩ }
    let b := ((ofConfig c).mapMemory fun _ => memory).writeAll
      [(0x83FF, 0), (0x841A, 0xAA), (0x841A, 0x55)]
    let shown : Board := { b with memory, ula }
    c.charGenerator = .qs ∧ b.qs.enabled = true ∧ (write 0x85FF 1 b).memory = b.memory ∧
      shown.fetch 0xC000 0x1E00 =
        (0, { shown with ula := { ula with shift := ⟨0xF055, 0x80FF⟩ } }) := by
  intro c memory ula b shown
  obtain ⟨hswitched, hkept, hshown⟩ := board_shows_written c rfl memory
    [(0x83FF, 0), (0x841A, 0xAA), (0x841A, 0x55)]
  have hon : b.qs.enabled = true := hswitched.2 (by decide)
  have hcode : memory.read (0xC000 &&& 0x7FFF) = 0x83 := by
    rw [Memory.read_write, if_pos ⟨by decide, by decide⟩]
  have hrow : lastWritten? (0x8400 + 8 * (0x83 &&& 0x3F : UInt8).toUInt16 +
      UInt16.ofNat ula.row.val) [(0x83FF, 0), (0x841A, 0xAA), (0x841A, 0x55)] = some 0x55 := by
    decide
  have hbits : ula.shift.bits ||| ((some 0x55 : Option UInt8).getD 0).toUInt16 = 0xF055 := by
    decide
  have hinverse : (if (0x83 : UInt8).toNat.testBit 7 = true then ula.shift.inverse ||| 0x00FF
      else ula.shift.inverse) = 0x80FF := by
    decide
  have hfetch := hshown hon memory ula 0xC000 0x1E00 (by decide)
  simp only [hcode, hrow, hbits, hinverse] at hfetch
  exact ⟨rfl, hon, hkept 0x85FF 1 (by decide) (by decide), hfetch (by decide)⟩

end Board
end Zx81
