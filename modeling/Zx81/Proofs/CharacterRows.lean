import Zx81.Proofs.ChipInputs

namespace Zx81.Video

/-- The sample of a bit in a lit picture. -/
def shade (inked : Bool) : UInt8 := if inked then ink else paper

namespace ShiftRegister

/-- Whether the sample that leaves after `i` others is ink, if nothing more is loaded. -/
def inkAt (r : ShiftRegister) (i : Nat) : Bool := (r.bits ^^^ r.inverse).toBitVec.getMsbD i

theorem and_highBit (x : UInt16) :
    x &&& 0x8000 = if x.toBitVec.getMsbD 0 then 0x8000 else 0 := by
  have hand := BitVec.and_twoPow x.toBitVec 15
  apply UInt16.toBitVec_inj.mp
  refine Eq.trans hand ?_
  change (if x.toBitVec.getMsbD 0 then _ else _) = _
  split <;> rfl

theorem colour_lit (r : ShiftRegister) : r.colour true = shade (r.inkAt 0) := by
  rw [colour, and_highBit]
  change (bif (if r.inkAt 0 then 0x8000 else 0 : UInt16) == 0 then paper else ink) = _
  cases r.inkAt 0 <;> rfl

theorem inkAt_next (r : ShiftRegister) (i : Nat) : r.next.inkAt i = r.inkAt (i + 1) := by
  simp [inkAt, next, BitVec.getMsbD_shiftLeft]

theorem inkAt_iterate (r : ShiftRegister) (n i : Nat) : (next^[n] r).inkAt i = r.inkAt (n + i) := by
  induction n generalizing i with
  | zero => rw [Nat.zero_add]; rfl
  | succ n ih =>
    rw [Function.iterate_succ_apply', inkAt_next, ih]
    congr 1
    omega

theorem getMsbD_of_free {x : UInt16} (h : x.toUInt8 = 0) {i : Nat} (hi : 8 ≤ i) :
    x.toBitVec.getMsbD i = false := by
  have hlow : x.toBitVec.setWidth 8 = 0#8 := congrArg UInt8.toBitVec h
  have hbit := congrArg (BitVec.getLsbD · (15 - i)) hlow
  have hplace : 15 - i < 8 := by omega
  simp only [BitVec.getLsbD_setWidth, BitVec.getLsbD_zero, hplace, decide_true,
    Bool.true_and] at hbit
  rw [BitVec.getMsbD, hbit, Bool.and_false]

theorem getMsbD_toUInt16 (v : UInt8) (i : Nat) :
    v.toUInt16.toBitVec.getMsbD i = (decide (8 ≤ i) && v.toBitVec.getMsbD (i - 8)) := by
  simp [BitVec.getMsbD_setWidth]

theorem getMsbD_lowByte (i : Nat) : (0x00FF#16).getMsbD i = decide (8 ≤ i ∧ i < 16) := by
  have hplaces : ∀ i : Fin 16, (0x00FF#16).getMsbD i = decide (8 ≤ i.val) := by decide
  by_cases hi : i < 16
  · have hplace := hplaces ⟨i, hi⟩
    simpa [hi] using hplace
  · rw [BitVec.getMsbD_of_ge _ _ (by omega)]
    simp [hi]

/-- A row loaded into a free register follows the eight samples that were on their way. -/
theorem inkAt_load {r : ShiftRegister} (h : r.Free) (bitmap : UInt8) (inverse : Bool) (i : Nat) :
    (r.load bitmap inverse).inkAt i =
      (r.inkAt i || decide (8 ≤ i ∧ i < 16) && (bitmap.toBitVec.getMsbD (i - 8) ^^ inverse)) := by
  have hinverse : (bif inverse then r.inverse ||| 0x00FF else r.inverse).toBitVec.getMsbD i =
      (r.inverse.toBitVec.getMsbD i || decide (8 ≤ i ∧ i < 16) && inverse) := by
    cases inverse <;> simp [getMsbD_lowByte]
  rw [inkAt, inkAt, load]
  simp only [UInt16.toBitVec_xor, UInt16.toBitVec_or, BitVec.getMsbD_xor, BitVec.getMsbD_or,
    getMsbD_toUInt16, hinverse]
  by_cases hlow : 8 ≤ i
  · have hbits := getMsbD_of_free h.1 hlow
    have hinverses := getMsbD_of_free h.2 hlow
    by_cases hhigh : i < 16
    · simp [hlow, hhigh, hbits, hinverses]
    · have hpast : bitmap.toBitVec.getMsbD (i - 8) = false := BitVec.getMsbD_of_ge _ _ (by omega)
      simp [hlow, hhigh, hbits, hinverses, hpast]
  · simp [hlow]

theorem samples_lit (n : Nat) (r : ShiftRegister) (line : Scanline)
    (h : line.length + n ≤ Scanline.capacity) :
    (shiftOut true n r line).2.samples.toList =
      line.samples.toList ++ (List.range n).map fun i => shade (r.inkAt i) := by
  induction n generalizing r line with
  | zero => simp [shiftOut]
  | succ n ih =>
    have hroom : line.samples.size < Scanline.capacity := by
      unfold Scanline.length at h
      omega
    have hpush : (line.push (r.colour true)).samples =
        line.samples.push (shade (r.inkAt 0)) := by
      rw [colour_lit]
      exact if_pos hroom
    have hlength : (line.push (r.colour true)).length + n ≤ Scanline.capacity := by
      rw [Scanline.length, hpush, Array.size_push]
      unfold Scanline.length at h
      omega
    have hshifted :
        (fun i => shade (r.next.inkAt i)) = (fun i => shade (r.inkAt i)) ∘ Nat.succ := by
      funext i
      rw [inkAt_next]
      rfl
    rw [shiftOut, ih _ _ hlength, hpush, hshifted, List.range_succ_eq_map, List.map_cons,
      List.map_map, Array.toList_push, List.append_assoc, List.singleton_append]

end ShiftRegister

/-- A bitmap row that may be loaded, inverse or not, and the T-states for which samples are sent
then. -/
structure Sending where
  row : Option (UInt8 × Bool) := none
  tstates : Nat

namespace Sending

def total (sendings : List Sending) : Nat := 2 * (sendings.map tstates).sum

def load (x : Sending) (r : ShiftRegister) : ShiftRegister :=
  match x.row with
  | some (bitmap, inverse) => r.load bitmap inverse
  | none => r

/-- Whether the row that is loaded makes a sample ink. -/
def inks (x : Sending) (i : Nat) : Bool :=
  match x.row with
  | some (bitmap, inverse) =>
    decide (8 ≤ i ∧ i < 16) && (bitmap.toBitVec.getMsbD (i - 8) ^^ inverse)
  | none => false

/-- Whether one of the rows that are loaded makes a sample ink. -/
def anyInks : List Sending → Nat → Bool
  | [], _ => false
  | x :: rest, i => x.inks i || decide (2 * x.tstates ≤ i) && anyInks rest (i - 2 * x.tstates)

theorem inkAt_load (x : Sending) {r : ShiftRegister} (h : r.Free) (i : Nat) :
    (x.load r).inkAt i = (r.inkAt i || x.inks i) := by
  unfold load inks
  split
  · exact ShiftRegister.inkAt_load h _ _ i
  · rw [Bool.or_false]

theorem total_cons (x : Sending) (rest : List Sending) :
    total (x :: rest) = 2 * x.tstates + total rest := by
  rw [total, List.map_cons, List.sum_cons, Nat.mul_add, total]

/-- The samples sent before a place in a list. -/
def sentBefore (sendings : List Sending) (k : Nat) : Nat := total (sendings.take k)

theorem sentBefore_succ (x : Sending) (rest : List Sending) (k : Nat) :
    sentBefore (x :: rest) (k + 1) = 2 * x.tstates + sentBefore rest k :=
  total_cons x (rest.take k)

section Rows

variable {sendings : List Sending}

theorem anyInks_of_lt (hlong : ∀ x ∈ sendings, 4 ≤ x.tstates) {i : Nat} (hi : i < 8) :
    anyInks sendings i = false := by
  cases sendings with
  | nil => rfl
  | cons x rest =>
    have hx : 4 ≤ x.tstates := hlong x (by simp)
    have hfirst : x.inks i = false := by
      unfold inks
      split
      · simp [show ¬8 ≤ i by omega]
      · rfl
    have hlater : ¬2 * x.tstates ≤ i := by omega
    rw [anyInks, hfirst, decide_eq_false hlater]
    rfl

/-- The eight samples of a row are its own: rows before it have left, rows after it have not yet
begun. -/
theorem anyInks_row (hlong : ∀ x ∈ sendings, 4 ≤ x.tstates) {k : Nat} {x : Sending}
    (hk : sendings[k]? = some x) {bitmap : UInt8} {inverse : Bool}
    (hrow : x.row = some (bitmap, inverse)) {j : Nat} (hj : j < 8) :
    anyInks sendings (sentBefore sendings k + 8 + j) =
      (bitmap.toBitVec.getMsbD j ^^ inverse) := by
  induction sendings generalizing k with
  | nil => simp at hk
  | cons y rest ih =>
    have hy : 4 ≤ y.tstates := hlong y (by simp)
    have hrest : ∀ x ∈ rest, 4 ≤ x.tstates := fun x hx => hlong x (by simp [hx])
    cases k with
    | zero =>
      obtain rfl : y = x := by simpa using hk
      have hstart : sentBefore (y :: rest) 0 + 8 + j = 8 + j := by
        simp [sentBefore, total]
      have hfirst : y.inks (8 + j) = (bitmap.toBitVec.getMsbD j ^^ inverse) := by
        simp [inks, hrow, show 8 + j < 16 by omega]
      have hlater : anyInks rest (8 + j - 2 * y.tstates) = false :=
        anyInks_of_lt hrest (by omega)
      rw [hstart, anyInks, hfirst, hlater, Bool.and_false, Bool.or_false]
    | succ k =>
      have hplace : sentBefore (y :: rest) (k + 1) + 8 + j =
          2 * y.tstates + (sentBefore rest k + 8 + j) := by
        rw [sentBefore_succ]
        omega
      have hgone : y.inks (2 * y.tstates + (sentBefore rest k + 8 + j)) = false := by
        unfold inks
        split
        · simp [show ¬2 * y.tstates + (sentBefore rest k + 8 + j) < 16 by omega]
        · rfl
      rw [hplace, anyInks, hgone, Bool.false_or, Nat.add_sub_cancel_left,
        ih hrest (by simpa using hk), decide_eq_true (Nat.le_add_right _ _), Bool.true_and]

theorem anyInks_of_clear {i : Nat}
    (hclear : ∀ (k : Nat) (x : Sending), sendings[k]? = some x → x.row.isSome →
      ¬(sentBefore sendings k + 8 ≤ i ∧ i < sentBefore sendings k + 16)) :
    anyInks sendings i = false := by
  induction sendings generalizing i with
  | nil => rfl
  | cons y rest ih =>
    have hfirst : y.inks i = false := by
      unfold inks
      split
      case h_1 bitmap inverse hrow =>
        have hplace := hclear 0 y (by simp) (by simp [hrow])
        have hnone : ¬(8 ≤ i ∧ i < 16) := by simpa [sentBefore, total] using hplace
        rw [decide_eq_false hnone, Bool.false_and]
      case h_2 => rfl
    rw [anyInks, hfirst, Bool.false_or]
    by_cases hlater : 2 * y.tstates ≤ i
    · have hrest : anyInks rest (i - 2 * y.tstates) = false := by
        apply ih
        intro k x hk hrow hplace
        apply hclear (k + 1) x (by simpa using hk) hrow
        rw [sentBefore_succ]
        omega
      rw [hrest, Bool.and_false]
    · rw [decide_eq_false hlater, Bool.false_and]

end Rows
end Sending

namespace Ula

def send (s : Ula × Scanline) (x : Sending) : Ula × Scanline :=
  let loaded :=
    match x.row with
    | some (bitmap, inverse) => s.1.loadShift bitmap inverse
    | none => s.1
  loaded.emit s.2 x.tstates

theorem send_fst (s : Ula × Scanline) (x : Sending) : (send s x).1 =
    { s.1 with shift := ShiftRegister.next^[2 * x.tstates] (x.load s.1.shift) } := by
  unfold send Sending.load
  split <;> exact emit_fst _ _ _

theorem send_snd (s : Ula × Scanline) (x : Sending) : (send s x).2 =
    (ShiftRegister.shiftOut s.1.lit (2 * x.tstates) (x.load s.1.shift) s.2).2 := by
  unfold send Sending.load
  split <;> rfl

/-- What is sent in a lit picture from a free register on: what was on its way, and the rows. -/
theorem samples_sendAll {u : Ula} {line : Scanline} {sendings : List Sending}
    (hfree : u.shift.Free) (hlit : u.lit) (hlong : ∀ x ∈ sendings, 4 ≤ x.tstates)
    (hroom : line.length + Sending.total sendings ≤ Scanline.capacity) :
    (sendings.foldl send (u, line)).2.samples.toList =
      line.samples.toList ++ (List.range (Sending.total sendings)).map fun i =>
        shade (u.shift.inkAt i || Sending.anyInks sendings i) := by
  induction sendings generalizing u line with
  | nil => simp [Sending.total]
  | cons x rest ih =>
    let loaded := x.load u.shift
    let sent := send (u, line) x
    have hx : 4 ≤ x.tstates := hlong x (by simp)
    have hrest : ∀ x ∈ rest, 4 ≤ x.tstates := fun x hx => hlong x (by simp [hx])
    rw [Sending.total_cons] at hroom ⊢
    have hshift : sent.1.shift = ShiftRegister.next^[2 * x.tstates] loaded :=
      congrArg Ula.shift (send_fst (u, line) x)
    have hfree' : sent.1.shift.Free := by
      rw [hshift]
      exact loaded.free_next (by omega)
    have hlit' : sent.1.lit := (congrArg Ula.lit (send_fst (u, line) x)).trans hlit
    have hsent : sent.2.samples.toList =
        line.samples.toList ++ (List.range (2 * x.tstates)).map fun i =>
          shade (loaded.inkAt i) := by
      rw [send_snd, hlit]
      exact loaded.samples_lit (2 * x.tstates) line (by omega)
    have hlength : sent.2.length = line.length + 2 * x.tstates := by
      have hsize := congrArg List.length hsent
      simpa [Scanline.length] using hsize
    have hroom' : sent.2.length + Sending.total rest ≤ Scanline.capacity := by omega
    have hnext := ih hfree' hlit' hrest hroom'
    rw [List.foldl_cons, hnext, hsent, List.range_add, List.map_append, List.map_map,
      List.append_assoc]
    -- The samples of this sending, then the later ones, counted from its end.
    congr 2
    · apply List.map_congr_left
      intro i hi
      have hi : i < 2 * x.tstates := List.mem_range.mp hi
      rw [x.inkAt_load hfree, Sending.anyInks, decide_eq_false (Nat.not_le.mpr hi),
        Bool.false_and, Bool.or_false]
    · apply List.map_congr_left
      intro i _
      rw [hshift, ShiftRegister.inkAt_iterate, x.inkAt_load hfree, Function.comp, Sending.anyInks,
        Nat.add_sub_cancel_left, decide_eq_true (Nat.le_add_right _ _), Bool.true_and,
        Bool.or_assoc]

/-- Rows loaded at least four T-states apart into an empty register, on an empty line of a lit
picture that has room for all samples. Two samples are sent for each T-state. A row that is loaded
after `p` samples has the eight from `p + 8` on, bit 7 first: ink where the bit differs from
whether the row is inverse. All other samples are paper. -/
theorem characters_shown {u : Ula} {line : Scanline} {sendings : List Sending}
    (hempty : u.shift = {}) (hlit : u.lit) (hline : line.samples = #[])
    (hlong : ∀ x ∈ sendings, 4 ≤ x.tstates)
    (hroom : 2 * (sendings.map Sending.tstates).sum ≤ Scanline.capacity) :
    let samples := (sendings.foldl send (u, line)).2.samples
    let start k := 2 * ((sendings.take k).map Sending.tstates).sum
    samples.size = 2 * (sendings.map Sending.tstates).sum ∧
      (∀ k t bitmap inverse, sendings[k]? = some ⟨some (bitmap, inverse), t⟩ →
        ∀ j < 8, start k + 8 + j < samples.size →
          samples[start k + 8 + j]? =
            some (if bitmap.toNat.testBit (7 - j) ≠ inverse then ink else paper)) ∧
      ∀ i < samples.size,
        (∀ k t row, sendings[k]? = some ⟨some row, t⟩ →
          ¬(start k + 8 ≤ i ∧ i < start k + 16)) →
        samples[i]? = some paper := by
  intro samples start
  have hfree : u.shift.Free := by
    rw [hempty]
    exact ⟨rfl, rfl⟩
  have hnothing (i : Nat) : u.shift.inkAt i = false := by
    rw [hempty]
    exact BitVec.getMsbD_zero
  have hstart : line.length + Sending.total sendings ≤ Scanline.capacity := by
    rw [Scanline.length, hline]
    simpa [Sending.total] using hroom
  have hsamples : samples.toList = (List.range (Sending.total sendings)).map fun i =>
      shade (Sending.anyInks sendings i) := by
    have hsent := samples_sendAll hfree hlit hlong hstart
    simpa only [hline, List.nil_append, hnothing, Bool.false_or] using hsent
  have hsize : samples.size = Sending.total sendings := by
    rw [← Array.length_toList, hsamples, List.length_map, List.length_range]
  have hsample {i : Nat} (hi : i < samples.size) :
      samples[i]? = some (shade (Sending.anyInks sendings i)) := by
    rw [hsize] at hi
    rw [← Array.getElem?_toList, hsamples]
    simp [hi]
  refine ⟨hsize, ?_, ?_⟩
  · intro k t bitmap inverse hk j hj hin
    have hbit : bitmap.toBitVec.getMsbD j = bitmap.toNat.testBit (7 - j) := by
      simp only [BitVec.getMsbD, hj, decide_true, Bool.true_and]
      rfl
    have hrow := Sending.anyInks_row hlong hk rfl hj
    rw [hbit] at hrow
    rw [hsample hin]
    change some (shade (Sending.anyInks sendings (Sending.sentBefore sendings k + 8 + j))) = _
    rw [hrow]
    cases bitmap.toNat.testBit (7 - j) <;> cases inverse <;> rfl
  · intro i hi hclear
    have hnone : Sending.anyInks sendings i = false := by
      apply Sending.anyInks_of_clear
      rintro k ⟨_ | row, t⟩ hk hrow
      · cases hrow
      · exact hclear k t row hk
    rw [hsample hi, hnone]
    rfl

/-- A row, an inverse row close behind it, and what follows them. -/
def twoRows : List Sending := [⟨some (0xA5, false), 4⟩, ⟨some (0x0F, true), 5⟩, ⟨none, 8⟩]

theorem twoRows_shown :
    let samples := (twoRows.foldl send ({ lineLength := 207, lit := true }, {})).2.samples
    samples.size = 34 ∧ samples[7]? = some paper ∧ samples[8]? = some ink ∧
      samples[9]? = some paper ∧ samples[16]? = some ink ∧ samples[20]? = some paper := by
  intro samples
  obtain ⟨hsize, hrow, hclear⟩ :=
    @characters_shown { lineLength := 207, lit := true } {} twoRows rfl rfl rfl (by decide)
      (by decide)
  have hin {i : Nat} (hi : i < 34) : i < samples.size := by
    rw [hsize]
    exact hi
  refine ⟨hsize, ?_, hrow 0 4 0xA5 false rfl 0 (by decide) (hin (by decide)),
    hrow 0 4 0xA5 false rfl 1 (by decide) (hin (by decide)),
    hrow 1 5 0x0F true rfl 0 (by decide) (hin (by decide)),
    hrow 1 5 0x0F true rfl 4 (by decide) (hin (by decide))⟩
  exact hclear 7 (hin (by decide)) fun k t row _ hplace => by omega

end Ula
end Zx81.Video
