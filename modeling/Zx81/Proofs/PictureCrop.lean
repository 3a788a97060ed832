import Zx81.Video.Window

namespace Zx81.Video

section Pieces

variable {α β : Type} {n : Nat} {f : α → List β} (hlength : ∀ a, (f a).length = n) (l : List α)

include hlength

/-- A part of one piece, in a list made of pieces of one length. -/
theorem slice_flatMap {i m k : Nat} (hi : i < l.length) (hpart : k + m ≤ n) :
    ((l.flatMap f).drop (n * i + k)).take m = ((f l[i]).drop k).take m := by
  induction l generalizing i with
  | nil => simp at hi
  | cons a l ih =>
    rw [List.flatMap_cons]
    cases i with
    | zero =>
      have hinside : k + m ≤ (f a).length := by rwa [hlength]
      rw [Nat.mul_zero, Nat.zero_add, List.drop_append_of_le_length (by omega),
        List.take_append_of_le_length (by rw [List.length_drop]; omega)]
      rfl
    | succ i =>
      have hskip : n * (i + 1) + k = (f a).length + (n * i + k) := by
        rw [hlength, Nat.mul_succ]
        omega
      rw [hskip, List.drop_length_add_append]
      exact ih (Nat.lt_of_succ_lt_succ hi)

theorem length_flatMap_of_length : (l.flatMap f).length = n * l.length := by
  rw [List.length_flatMap, List.map_congr_left fun a _ => hlength a, List.map_const',
    List.sum_replicate_nat, Nat.mul_comm]

end Pieces

/-- Red, green, blue and an opaque alpha; black without a sample, and for a sample without a
colour. -/
def rgba (sample : Option UInt8) : List UInt8 :=
  match sample >>= palette with
  | some c => [c.red, c.green, c.blue, 0xFF]
  | none => [0, 0, 0, 0xFF]

theorem length_rgba (sample : Option UInt8) : (rgba sample).length = 4 := by
  unfold rgba
  split
  · rfl
  · rfl

theorem channels_of_colour (c : Rgb) :
    channels (0xFF000000 + 0x10000 * c.red.toUInt32 + 0x100 * c.green.toUInt32 +
      c.blue.toUInt32) = [c.red, c.green, c.blue, 0xFF] := by
  have hred := c.red.toNat_lt
  have hgreen := c.green.toNat_lt
  have hblue := c.blue.toNat_lt
  simp only [channels, List.cons.injEq, ← UInt8.toNat_inj, and_true, UInt32.toNat_toUInt8,
    UInt32.toNat_shiftRight, UInt32.toNat_add, UInt32.toNat_mul, UInt8.toNat_toUInt32,
    UInt32.toNat_ofNat, Nat.shiftRight_eq_div_pow, Nat.reduceMod, Nat.reducePow]
  omega

theorem channels_argb (sample : UInt8) : channels (argb sample) = rgba (some sample) := by
  simp only [argb, rgba, Option.bind_eq_bind, Option.bind_some]
  cases palette sample with
  | none => rfl
  | some c => exact channels_of_colour c

namespace Frame

/-- The words are looked up as the samples are. -/
theorem channels_wordAt (f : Frame) (x y : Nat) :
    channels (f.wordAt f.toArgb.toArray x y) = rgba (f.pixel x y) := by
  unfold wordAt pixel
  split
  case isFalse => rfl
  case isTrue =>
    have hword : f.toArgb.toArray.getD (y * f.width + x) 0 =
        (f.pixels[y * f.width + x]?.map argb).getD 0 := by
      simp [toArgb]
    rw [hword]
    cases f.pixels[y * f.width + x]? with
    | none => rfl
    | some sample => exact channels_argb sample

theorem crop_eq (f : Frame) (w : Window) :
    f.crop w = (List.range' w.y w.height).flatMap fun y =>
      (List.range' w.x w.width).flatMap fun x => rgba (f.pixel x y) := by
  simp only [crop, channels_wordAt]

/-- The bytes of any window of any picture, malformed ones included: four for each place, and those
of the place in column `i` and row `j` of the window are the bytes of the pixel there. -/
theorem crop_shows_pixels (f : Frame) (w : Window) :
    (f.crop w).length = 4 * w.width * w.height ∧
      ∀ i j, i < w.width → j < w.height →
        ((f.crop w).drop (4 * (j * w.width + i))).take 4 = rgba (f.pixel (w.x + i) (w.y + j)) := by
  have hpixel : ∀ y x, (rgba (f.pixel x y)).length = 4 := fun y x => length_rgba _
  have hrow : ∀ y, ((List.range' w.x w.width).flatMap fun x => rgba (f.pixel x y)).length =
      4 * w.width := by
    intro y
    rw [length_flatMap_of_length (hpixel y), List.length_range']
  rw [crop_eq]
  constructor
  · rw [length_flatMap_of_length hrow, List.length_range']
  · intro i j hi hj
    have hoffset : 4 * (j * w.width + i) = 4 * w.width * j + 4 * i := by
      rw [Nat.mul_add, Nat.mul_right_comm, Nat.mul_assoc]
    -- The pixel is the part of the row that starts at `4 * i`, and the whole of its own bytes.
    have hinRow := slice_flatMap hrow (List.range' w.y w.height) (i := j) (k := 4 * i) (m := 4)
      (by rwa [List.length_range']) (by omega)
    have hinPixel := slice_flatMap (hpixel (w.y + j)) (List.range' w.x w.width) (i := i) (k := 0)
      (m := 4) (by rwa [List.length_range']) (Nat.le_refl 4)
    rw [hoffset, hinRow]
    simp only [List.getElem_range', Nat.one_mul, Nat.add_zero, List.drop_zero] at hinPixel ⊢
    rw [hinPixel, ← hpixel (w.y + j) (w.x + i), List.take_length]

/-- A picture that lacks its last sample and has one without a colour, and a window that reaches
past its right edge. -/
theorem raggedPicture_shown :
    let f : Frame := { width := 2, height := 2, pixels := #[paper, 7, blank] }
    let w : Window := ⟨0, 0, 3, 2⟩
    let bytes := fun i j => ((f.crop w).drop (4 * (j * w.width + i))).take 4
    (2 < w.width ∧ 1 < w.height) ∧ (f.crop w).length = 24 ∧
      bytes 0 0 = [0xE8, 0xE8, 0xE8, 0xFF] ∧ bytes 1 0 = [0, 0, 0, 0xFF] ∧
      bytes 2 0 = [0, 0, 0, 0xFF] ∧ bytes 0 1 = [0x20, 0x20, 0x20, 0xFF] ∧
      f.pixel 1 1 = none ∧ bytes 1 1 = [0, 0, 0, 0xFF] := by
  intro f w bytes
  obtain ⟨hlength, hplace⟩ := crop_shows_pixels f w
  exact ⟨by decide, hlength, hplace 0 0 (by decide) (by decide), hplace 1 0 (by decide) (by decide),
    hplace 2 0 (by decide) (by decide), hplace 0 1 (by decide) (by decide), rfl,
    hplace 1 1 (by decide) (by decide)⟩

end Frame
end Zx81.Video
