import Zx81.Video.Window

namespace Zx81.Video.Window

def Shows (w : Window) (x y : Nat) : Prop :=
  (w.x ≤ x ∧ x < w.x + w.width) ∧ w.y ≤ y ∧ y < w.y + w.height

/-- A place of the raster lies in the characters, at most `below` pixels below them or at most
`margin` away on another side. The edges are integers: the border may begin above the raster. -/
def InBorder (margin below : Nat) (ntsc : Bool) (rasterWidth rasterHeight x y : Nat) : Prop :=
  (x < rasterWidth ∧ (characterLeft : Int) - margin ≤ x ∧
    (x : Int) < characterLeft + characterWidth + margin) ∧
  y < rasterHeight ∧ (characterTop ntsc : Int) - margin ≤ y ∧
    (y : Int) < characterTop ntsc + characterHeight + below

instance (w : Window) (x y : Nat) : Decidable (w.Shows x y) := inferInstanceAs (Decidable (_ ∧ _))

instance (margin below : Nat) (ntsc : Bool) (rasterWidth rasterHeight x y : Nat) :
    Decidable (InBorder margin below ntsc rasterWidth rasterHeight x y) :=
  inferInstanceAs (Decidable (_ ∧ _))

/-- One axis of a window. What does not fit before the start is added at the end. -/
theorem mem_axis_iff (start length margin size i : Nat) :
    (start - margin ≤ i ∧
        i < start - margin + min (length + 2 * margin) (size - (start - margin))) ↔
      i < size ∧ (start : Int) - margin ≤ i ∧
        (i : Int) < start + length + (margin + (margin - start) : Nat) := by
  omega

/-- The border that one axis of a window keeps on either side. -/
theorem axis_border (start length margin size : Nat) :
    start - (start - margin) = min margin start ∧
      start - margin + min (length + 2 * margin) (size - (start - margin)) - (start + length) =
        min (margin + (margin - start)) (size - (start + length)) := by
  omega

section Around

variable {margin : Nat} (hleft : margin ≤ characterLeft) (ntsc : Bool)
  (rasterWidth rasterHeight x y : Nat)

include hleft

theorem shows_around_iff : (around margin ntsc rasterWidth rasterHeight).Shows x y ↔
    InBorder margin (margin + (margin - characterTop ntsc)) ntsc rasterWidth rasterHeight x y := by
  have hcolumns := mem_axis_iff characterLeft characterWidth margin rasterWidth x
  rw [Nat.sub_eq_zero_of_le hleft, Nat.add_zero] at hcolumns
  exact and_congr hcolumns (mem_axis_iff _ characterHeight margin rasterHeight y)

/-- The window reaches past the border where the border begins above the raster, if the columns
and the rows below are there. -/
theorem forall_shows_around_iff :
    (∀ x y, (around margin ntsc rasterWidth rasterHeight).Shows x y ↔
        InBorder margin margin ntsc rasterWidth rasterHeight x y) ↔
      ¬ (characterTop ntsc < margin ∧ characterLeft - margin < rasterWidth ∧
        characterTop ntsc + characterHeight + margin < rasterHeight) := by
  simp only [shows_around_iff hleft, InBorder]
  constructor
  · rintro hsame ⟨habove, hcolumn, hrow⟩
    -- The first place below the border is shown.
    have hbelow := hsame (characterLeft - margin) (characterTop ntsc + characterHeight + margin)
    omega
  · intro hnot x y
    omega

end Around

theorem margin_le_characterLeft {border : Border} {margin : Nat}
    (h : border.margin? = some margin) : margin ≤ characterLeft := by
  cases border <;> simp [Border.margin?, characterLeft] at h ⊢ <;> omega

/-- Only the large border is wider than the space above the characters, and only at 60 Hz. -/
theorem characterTop_lt_iff {border : Border} {margin : Nat} (h : border.margin? = some margin)
    (ntsc : Bool) : characterTop ntsc < margin ↔ border = .large ∧ ntsc = true := by
  cases border <;> cases ntsc <;> simp [Border.margin?, characterTop] at h ⊢ <;> omega

/-- The window of a border with a margin, on any raster. It shows the characters and `margin` pixels
on each side of them, as far as the raster goes, and below them as many more rows as the border is
too high for the space above. So the border is the same on opposite sides wherever there is room,
and only the large border at 60 Hz shows more, on a raster of more than 272 rows. The full border
shows the whole raster. -/
theorem border_shown (ntsc : Bool) (rasterWidth rasterHeight : Nat) :
    (∀ x y, (new .full ntsc rasterWidth rasterHeight).Shows x y ↔
      x < rasterWidth ∧ y < rasterHeight) ∧
    ∀ (border : Border) (margin : Nat), border.margin? = some margin →
      let w := new border ntsc rasterWidth rasterHeight
      let right := characterLeft + characterWidth
      let top := characterTop ntsc
      let bottom := top + characterHeight
      (∀ x y, w.Shows x y ↔
        InBorder margin (margin + (margin - top)) ntsc rasterWidth rasterHeight x y) ∧
      ((∀ x y, w.Shows x y ↔ InBorder margin margin ntsc rasterWidth rasterHeight x y) ↔
        ¬ (border = .large ∧ ntsc = true ∧ 26 < rasterWidth ∧ 272 < rasterHeight)) ∧
      (characterLeft - w.x = margin ∧ w.x + w.width - right = min margin (rasterWidth - right)) ∧
      top - w.y = min margin top ∧
      w.y + w.height - bottom = min (margin + (margin - top)) (rasterHeight - bottom) := by
  constructor
  · intro x y
    simp [new, Border.margin?, Shows]
  · intro border margin hmargin w right top bottom
    have hleft := margin_le_characterLeft hmargin
    have hw : w = around margin ntsc rasterWidth rasterHeight := by
      simp only [w, new, hmargin]
    have hcolumns := axis_border characterLeft characterWidth margin rasterWidth
    rw [Nat.min_eq_left hleft, Nat.sub_eq_zero_of_le hleft, Nat.add_zero] at hcolumns
    rw [hw]
    refine ⟨fun x y => shows_around_iff hleft ntsc rasterWidth rasterHeight x y, ?_, hcolumns,
      axis_border top characterHeight margin rasterHeight⟩
    rw [forall_shows_around_iff hleft]
    apply not_congr
    constructor
    · rintro ⟨habove, hcolumn, hrow⟩
      obtain ⟨rfl, rfl⟩ := (characterTop_lt_iff hmargin ntsc).1 habove
      obtain rfl : 48 = margin := by simpa [Border.margin?] using hmargin
      exact ⟨rfl, rfl, hcolumn, hrow⟩
    · rintro ⟨rfl, rfl, hcolumn, hrow⟩
      obtain rfl : 48 = margin := by simpa [Border.margin?] using hmargin
      exact ⟨by decide, hcolumn, hrow⟩

/-- The large border on the raster of 60 Hz: 32 rows above the characters and 56 below, the last
eight of which are no part of the border. -/
theorem largeBorder_shown :
    let w := new .large true 414 280
    Border.large.margin? = some 48 ∧ w = ⟨26, 0, 352, 280⟩ ∧
      (w.Shows 26 272 ∧ ¬ InBorder 48 48 true 414 280 26 272) ∧
      ¬ ∀ x y, w.Shows x y ↔ InBorder 48 48 true 414 280 x y := by
  intro w
  have hmargin : Border.large.margin? = some 48 := rfl
  obtain ⟨hshown, hsame, -⟩ := (border_shown true 414 280).2 .large 48 hmargin
  refine ⟨hmargin, rfl, ⟨(hshown 26 272).2 (by decide), by decide⟩, ?_⟩
  rw [hsame]
  decide

end Zx81.Video.Window
