import Zx81.Proofs.Picture

namespace Zx81.Video

theorem row_end_le (w : Nat) {y y' : Nat} (h : y < y') : y * w + w ≤ y' * w := by
  rw [← Nat.succ_mul]
  exact Nat.mul_le_mul_right w h

/-- A place between the two ends of a row is on that row. -/
theorem row_unique {w c y y' : Nat} (hc : c < w) (hleft : y * w ≤ y' * w + c)
    (hright : y' * w + c < y * w + w) : y' = y := by
  rcases Nat.lt_trichotomy y' y with habove | hsame | hbelow
  · have hend := row_end_le w habove
    omega
  · exact hsame
  · have hend := row_end_le w hbelow
    omega

theorem Geometry.place_lt_area {g : Geometry} {c y : Nat} (hc : c < g.width)
    (hy : y < g.height) : y * g.width + c < g.area := by
  have hend := row_end_le g.width hy
  rw [area, Nat.mul_comm g.width]
  omega

theorem Frame.pixel_eq {g : Geometry} {f : Frame} (hwidth : f.width = g.width)
    (hheight : f.height = g.height) {c y : Nat} (hc : c < g.width) (hy : y < g.height) :
    f.pixel c y = f.pixels[y * g.width + c]? := by
  rw [pixel, hwidth, hheight, if_pos ⟨hc, hy⟩]

theorem some_getD_blank (line : Scanline) (c : Nat) :
    some (line.samples[c]?.getD blank) =
      if c < line.length then line.samples[c]? else some blank := by
  by_cases hsample : c < line.length
  · rw [if_pos hsample, Array.getElem?_eq_getElem hsample]
    rfl
  · rw [if_neg hsample, Array.getElem?_eq_none (Nat.le_of_not_lt hsample)]
    rfl

namespace Beam

variable {g : Geometry}

theorem Within.pixel_paint {b : Beam} (h : Within g b) (hrow : b.y < g.height) (colour : UInt8)
    {c : Nat} (hc : c < g.width) (y : Nat) :
    (b.paint g colour).pixels[y * g.width + c]? =
      if y = b.y ∧ c = b.x then some colour else b.pixels[y * g.width + c]? := by
  rw [getElem?_paint, h.size]
  by_cases hplace : y = b.y ∧ c = b.x
  · obtain ⟨rfl, rfl⟩ := hplace
    rw [if_pos ⟨hc, hrow, rfl, Geometry.place_lt_area hc hrow⟩, if_pos ⟨rfl, rfl⟩]
  · rw [if_neg hplace, if_neg]
    rintro ⟨hx, -, hsame, -⟩
    obtain rfl : y = b.y := row_unique hc (by omega) (by omega)
    exact hplace ⟨rfl, by omega⟩

/-- Samples that do not run on too far stay on the row under the beam, side by side. -/
theorem Within.sweep_row {b : Beam} (h : Within g b) (hrow : b.y < g.height)
    {samples : List UInt8} (hrun : b.x + samples.length < g.width + syncTolerance) :
    (b.sweep g samples).x = b.x + samples.length ∧ (b.sweep g samples).y = b.y ∧
      ∀ c < g.width, ∀ y, (b.sweep g samples).pixels[y * g.width + c]? =
        if y = b.y ∧ b.x ≤ c ∧ c < b.x + samples.length then samples[c - b.x]?
        else b.pixels[y * g.width + c]? := by
  induction samples generalizing b with
  | nil =>
    refine ⟨rfl, rfl, fun c _ y => ?_⟩
    rw [if_neg (by simp only [List.length_nil]; omega)]
    rfl
  | cons colour rest ih =>
    rw [List.length_cons] at hrun
    have hstays : b.x + 1 < g.width + syncTolerance := by omega
    have hx : ((b.paint g colour).move g).x = b.x + 1 := by rw [x_move, x_paint, if_pos hstays]
    have hy : ((b.paint g colour).move g).y = b.y := by
      rw [y_move, x_paint, y_paint, if_pos hstays]
    obtain ⟨hx', hy', hpixels⟩ := ih (h.step colour) (by rwa [hy]) (by rw [hx]; omega)
    simp only [Beam.sweep, hy, if_pos hrow]
    refine ⟨?_, hy'.trans hy, ?_⟩
    · rw [hx', hx, List.length_cons]
      omega
    · intro c hc y
      rw [hpixels c hc y, hx, hy, pixels_move, h.pixel_paint hrow colour hc, List.length_cons]
      -- The first sample is under the beam, the others are right of it.
      by_cases hfirst : y = b.y ∧ c = b.x
      · obtain ⟨rfl, rfl⟩ := hfirst
        rw [if_neg (by omega), if_pos ⟨rfl, rfl⟩, if_pos (by omega), Nat.sub_self]
        rfl
      · rw [if_neg hfirst]
        by_cases hrest : y = b.y ∧ b.x + 1 ≤ c ∧ c < b.x + 1 + rest.length
        · rw [if_pos hrest, if_pos (by omega), show c - b.x = c - (b.x + 1) + 1 by omega,
            List.getElem?_cons_succ]
        · rw [if_neg hrest, if_neg (by omega)]

theorem getElem?_blankRest (b : Beam) (i : Nat) :
    (b.blankRest g)[i]? =
      if b.y * g.width + b.x ≤ i ∧ i < b.pixels.size then some blank else b.pixels[i]? := by
  change (blankFrom b.pixels _ _)[i]? = _
  rw [getElem?_blankFrom]
  congr 1
  simp only [eq_iff_iff]
  omega

end Beam

namespace Raster

variable {g : Geometry} {n : Nat}

/-- A line that fills one row: it ends near the right edge, with a sync of a line's length. -/
structure FillsRow (g : Geometry) (line : Scanline) : Prop where
  sync : line.hasSync = true
  shortest : shortestSync ≤ line.syncLength
  longest : line.syncLength ≤ longestLineSync
  least : g.width - syncTolerance ≤ line.length
  most : line.length < g.width + syncTolerance

/-- A line that ends the picture when it is low enough: it ends before a sync would start a new
row, with a sync that is too long for a line. -/
structure EndsPicture (g : Geometry) (line : Scanline) : Prop where
  sync : line.hasSync = true
  long : longestLineSync < line.syncLength
  short : line.length < g.width - syncTolerance

theorem FillsRow.validSync {line : Scanline} (h : FillsRow g line) : validSync line = true := by
  rw [Raster.validSync, h.sync, Bool.true_and, decide_eq_true_eq]
  exact h.shortest

theorem EndsPicture.validSync {line : Scanline} (h : EndsPicture g line) :
    validSync line = true := by
  have hlong := h.long
  rw [Raster.validSync, h.sync, Bool.true_and, decide_eq_true_eq]
  simp only [longestLineSync, shortestSync] at hlong ⊢
  omega

/-- The beam at the start of a row. -/
structure AtRow (g : Geometry) (n : Nat) (r : Raster) : Prop where
  ready : r.Ready g
  x : r.beam.x = 0
  y : r.beam.y = n

theorem AtPicture.atRow {t l : Nat} {r : Raster} (h : r.AtPicture t l) :
    r.AtRow (.ofTiming t l) 0 :=
  ⟨h.ready, h.beam.1, h.beam.2⟩

theorem AtRow.sweep {r : Raster} (h : r.AtRow g n) {line : Scanline}
    (hrun : line.length < g.width + syncTolerance) :
    (r.beam.sweep g line.samples.toList).x = line.length ∧
      (r.beam.sweep g line.samples.toList).y = n ∧
      ∀ c < g.width, ∀ y, (r.beam.sweep g line.samples.toList).pixels[y * g.width + c]? =
        if y = n ∧ c < line.length then line.samples[c]?
        else r.beam.pixels[y * g.width + c]? := by
  obtain ⟨⟨-, hwithin, hrow⟩, hx, rfl⟩ := h
  have hfits : r.beam.x + line.samples.toList.length < g.width + syncTolerance := by
    rwa [hx, Nat.zero_add, Array.length_toList]
  have hswept := hwithin.sweep_row hrow hfits
  simp only [hx, Nat.zero_add, Array.length_toList, Array.getElem?_toList, Nat.zero_le, true_and,
    Nat.sub_zero] at hswept
  exact hswept

/-- A line that fills a row moves the beam to the next one and changes that row only. -/
theorem AtRow.sweepLine {r : Raster} (h : r.AtRow g n) {line : Scanline}
    (hline : FillsRow g line) :
    (sweepLine g line r.beam).x = 0 ∧ (sweepLine g line r.beam).y = n + 1 ∧
      ∀ c < g.width, ∀ y, (sweepLine g line r.beam).pixels[y * g.width + c]? =
        if y = n then some (line.samples[c]?.getD blank)
        else r.beam.pixels[y * g.width + c]? := by
  obtain ⟨hx, hy, hpixels⟩ := h.sweep hline.most
  have hsize := (h.ready.beam.sweep line.samples.toList).size
  have hrow : n < g.height := h.y ▸ h.ready.row
  have hends : Raster.sweepLine g line r.beam =
      (r.beam.sweep g line.samples.toList).nextRow g := by
    simp only [Raster.sweepLine, hx, hline.validSync, hline.least, decide_true, Bool.and_self,
      if_true]
  rw [hends, Beam.nextRow_eq]
  refine ⟨rfl, congrArg (· + 1) hy, fun c hc y => ?_⟩
  simp only [hy, hx, if_pos hrow, getElem?_blankFrom, hsize]
  by_cases hsame : y = n
  · subst hsame
    have hin := Geometry.place_lt_area hc hrow
    -- A line that runs on past the edge has a sample for every place and leaves nothing to blank.
    rw [if_pos rfl, some_getD_blank]
    by_cases hsample : c < line.length
    · rw [if_neg (by omega), hpixels c hc, if_pos ⟨rfl, hsample⟩, if_pos hsample]
    · rw [if_pos (by omega), if_neg hsample]
  · rw [if_neg hsame, if_neg, hpixels c hc, if_neg fun h => hsame h.1]
    intro hblank
    exact hsame (row_unique hc (by omega) (by omega))

theorem AtRow.draw {r : Raster} (h : r.AtRow g n) (hfit : n + 1 < g.height) {line : Scanline}
    (hline : FillsRow g line) :
    (r.draw line).1 = false ∧
      (r.draw line).2 = { r with beam := Raster.sweepLine g line r.beam } ∧
      (r.draw line).2.AtRow g (n + 1) := by
  obtain ⟨hx, hy, -⟩ := h.sweepLine hline
  have hnone : (r.draw line).1 = false := by
    have hlongest := hline.longest
    rw [draw_fst, h.ready.geometry, completes, hy]
    simp [Nat.not_le_of_lt hfit, Nat.not_lt_of_le hlongest]
  have hdrawn : (r.draw line).2 = { r with beam := Raster.sweepLine g line r.beam } := by
    rw [draw_of_not_completes hnone, h.ready.geometry]
  refine ⟨hnone, hdrawn, h.ready.draw line, ?_, ?_⟩
  · rw [hdrawn, hx]
  · rw [hdrawn, hy]

/-- Lines that each fill a row, as many as there is room for, are laid down one below the
other. -/
theorem AtRow.drawAll {r : Raster} (h : r.AtRow g n) {lines : List Scanline}
    (hfit : n + lines.length < g.height) (hlines : ∀ line ∈ lines, FillsRow g line) :
    (r.drawAll lines).1 = List.replicate lines.length none ∧
      (r.drawAll lines).2 = { r with beam := (r.drawAll lines).2.beam } ∧
      (r.drawAll lines).2.AtRow g (n + lines.length) ∧
      (∀ y, y < n ∨ n + lines.length ≤ y → ∀ c < g.width,
        (r.drawAll lines).2.beam.pixels[y * g.width + c]? = r.beam.pixels[y * g.width + c]?) ∧
      ∀ i line, lines[i]? = some line → ∀ c < g.width,
        (r.drawAll lines).2.beam.pixels[(n + i) * g.width + c]? =
          some (line.samples[c]?.getD blank) := by
  induction lines generalizing r n with
  | nil => exact ⟨rfl, rfl, h, fun _ _ _ _ => rfl, fun i line hi => by simp at hi⟩
  | cons line lines ih =>
    rw [List.length_cons] at hfit
    have hline : FillsRow g line := hlines line List.mem_cons_self
    obtain ⟨hnone, hdrawn, hnext⟩ := h.draw (by omega) hline
    obtain ⟨-, -, hpixels⟩ := h.sweepLine hline
    obtain ⟨hanswers, hrest, hlast, hothers, hrows⟩ := ih hnext (by omega)
      fun later hlater => hlines later (List.mem_cons_of_mem _ hlater)
    rw [drawAll_cons, hnone, hanswers, List.length_cons, Nat.add_comm lines.length 1,
      ← Nat.add_assoc]
    refine ⟨by rw [Nat.add_comm 1, List.replicate_succ]; rfl, ?_, hlast, ?_, ?_⟩
    · exact hrest.trans (by rw [hdrawn])
    · intro y hy c hc
      rw [hothers y (by omega) c hc, hdrawn]
      exact (hpixels c hc y).trans (if_neg (by omega))
    · intro i line' hi c hc
      cases i with
      | zero =>
        obtain rfl : line = line' := by simpa using hi
        rw [Nat.add_zero, hothers n (by omega) c hc, hdrawn]
        exact (hpixels c hc n).trans (if_pos rfl)
      | succ i =>
        rw [show n + (i + 1) = n + 1 + i by omega]
        exact hrows i line' (by simpa using hi) c hc

/-- A line that ends the picture leaves all after its samples blank. -/
theorem AtRow.draw_last {r : Raster} (h : r.AtRow g n) (hlow : g.lastLockedRow < n)
    {line : Scanline} (hline : EndsPicture g line) :
    (r.draw line).1 = true ∧
      ∀ c < g.width, ∀ y < g.height,
        (r.draw line).2.screen.latest.pixels[y * g.width + c]? =
          if y < n then r.beam.pixels[y * g.width + c]?
          else if y = n then some (line.samples[c]?.getD blank) else some blank := by
  have hshort := hline.short
  have hrun : line.length < g.width + syncTolerance := by omega
  obtain ⟨hx, hy, hpixels⟩ := h.sweep hrun
  have hsize := (h.ready.beam.sweep line.samples.toList).size
  have hswept : Raster.sweepLine g line r.beam = r.beam.sweep g line.samples.toList := by
    simp only [Raster.sweepLine, hx, Nat.not_le_of_lt hshort, decide_false, Bool.and_false,
      Bool.false_eq_true, if_false]
  have hdone : (r.draw line).1 = true := by
    rw [draw_fst, h.ready.geometry, completes, hswept, hy, hline.validSync]
    simp [hline.long, hlow]
  obtain ⟨-, -, -, hlatest⟩ := draw_of_completes hdone
  refine ⟨hdone, fun c hc y hrow => ?_⟩
  have hin := Geometry.place_lt_area hc hrow
  rw [hlatest, h.ready.geometry, hswept]
  simp only [Beam.getElem?_blankRest, hx, hy, hsize]
  rcases Nat.lt_trichotomy y n with habove | rfl | hbelow
  · have hend := row_end_le g.width habove
    rw [if_neg (by omega), if_pos habove, hpixels c hc, if_neg (by omega)]
  · rw [if_neg (Nat.lt_irrefl y), if_pos rfl, some_getD_blank]
    by_cases hsample : c < line.length
    · rw [if_neg (by omega), hpixels c hc, if_pos ⟨rfl, hsample⟩, if_pos hsample]
    · rw [if_pos (by omega), if_neg hsample]
  · have hend := row_end_le g.width hbelow
    rw [if_pos (by omega), if_neg (by omega), if_neg (by omega)]

theorem Ready.current_pixel {r : Raster} (h : r.Ready g) {c y : Nat} (hc : c < g.width)
    (hy : y < g.height) : r.current.pixel c y = r.beam.pixels[y * g.width + c]? :=
  Frame.pixel_eq (congrArg Geometry.width h.geometry) (congrArg Geometry.height h.geometry) hc hy

/-- From the start of a picture on, lines that each fill a row, fewer than there are rows, are
the rows of the picture from the top, and complete nothing. Once they reach below the last row in
which a vertical sync is ignored, a line that ends the picture shows them with its own samples in
the row below and nothing else. -/
theorem rows_make_picture (tstatesPerLine linesPerFrame : Nat) (r : Raster)
    (hstart : r.AtRow (.ofTiming tstatesPerLine linesPerFrame) 0) (rows : List Scanline)
    (hfit : rows.length < linesPerFrame + extraRows)
    (hrows : ∀ line ∈ rows, FillsRow (.ofTiming tstatesPerLine linesPerFrame) line) :
    let g := Geometry.ofTiming tstatesPerLine linesPerFrame
    let drawn := r.drawAll rows
    drawn.1 = List.replicate rows.length none ∧
      drawn.2 = { r with beam := drawn.2.beam } ∧
      drawn.2.AtRow g rows.length ∧
      (∀ i line, rows[i]? = some line → ∀ x < g.width,
        drawn.2.current.pixel x i = some (line.samples[x]?.getD blank)) ∧
      (∀ x < g.width, ∀ y < g.height, rows.length ≤ y →
        drawn.2.current.pixel x y = r.current.pixel x y) ∧
      ∀ last, EndsPicture g last → linesPerFrame - earlyRows < rows.length →
        let done := drawn.2.draw last
        let shown := done.2.screen.latest
        done.1 = true ∧ done.2.AtRow g 0 ∧ done.2.frames = r.frames + 1 ∧
          shown.width = g.width ∧ shown.height = g.height ∧
          (∀ x < g.width, ∀ i < rows.length, shown.pixel x i = drawn.2.current.pixel x i) ∧
          (∀ x < g.width, shown.pixel x rows.length = some (last.samples[x]?.getD blank)) ∧
          ∀ x < g.width, ∀ y < g.height, rows.length < y → shown.pixel x y = some blank := by
  intro g drawn
  have hroom : 0 + rows.length < g.height := by rwa [Nat.zero_add]
  obtain ⟨hanswers, hrest, hlast, hbelow, hpixels⟩ := hstart.drawAll hroom hrows
  rw [Nat.zero_add] at hlast hbelow hroom
  refine ⟨hanswers, hrest, hlast, ?_, ?_, ?_⟩
  · intro i line hi x hx
    obtain ⟨hlen, -⟩ := List.getElem?_eq_some_iff.mp hi
    rw [hlast.ready.current_pixel hx (Nat.lt_trans hlen hroom), ← hpixels i line hi x hx,
      Nat.zero_add]
  · intro x hx y hy hn
    rw [hlast.ready.current_pixel hx hy, hstart.ready.current_pixel hx hy]
    exact hbelow y (.inr hn) x hx
  · intro last hends hlow done shown
    obtain ⟨hdone, hshown⟩ := hlast.draw_last hlow hends
    obtain ⟨-, hnext, hframes, -⟩ := draw_of_completes hdone
    obtain ⟨-, hwidth, hheight, -⟩ := hlast.ready.shown hdone
    refine ⟨hdone, ⟨hlast.ready.draw last, congrArg Beam.x hnext, congrArg Beam.y hnext⟩, ?_,
      hwidth, hheight, ?_, ?_, ?_⟩
    · exact hframes.trans (by rw [show drawn.2.frames = r.frames by rw [hrest]])
    · intro x hx i hi
      have hin := Nat.lt_trans hi hroom
      rw [Frame.pixel_eq hwidth hheight hx hin, hlast.ready.current_pixel hx hin]
      exact (hshown x hx i hin).trans (if_pos hi)
    · intro x hx
      rw [Frame.pixel_eq hwidth hheight hx hroom, hshown x hx _ hroom, if_neg (Nat.lt_irrefl _),
        if_pos rfl]
    · intro x hx y hy hn
      rw [Frame.pixel_eq hwidth hheight hx hy, hshown x hx y hy, if_neg (by omega),
        if_neg (by omega)]

/-- A line of three samples, just long enough to fill a row of 66. -/
def strip : Scanline := ⟨#[ink, paper, ink], 10, .horizontal⟩

/-- A raster for lines of 33 T-states that draws over a picture all in ink. -/
def inked : Raster :=
  ((start 33 1 ⟨{ pixels := .replicate 1254 ink }⟩ {}).drawAll [strip, flash]).2

theorem strip_and_flash_over_ink :
    inked.AtRow (.ofTiming 33 1) 0 ∧ FillsRow (.ofTiming 33 1) strip ∧
      EndsPicture (.ofTiming 33 1) flash ∧
      inked.current.pixel 3 0 = some ink ∧
      ((inked.drawAll [strip]).2.draw flash).1 = true ∧
      ((inked.drawAll [strip]).2.draw flash).2.screen.latest.pixel 1 0 = some paper ∧
      ((inked.drawAll [strip]).2.draw flash).2.screen.latest.pixel 3 0 = some blank ∧
      ((inked.drawAll [strip]).2.draw flash).2.screen.latest.pixel 0 1 = some paper ∧
      ((inked.drawAll [strip]).2.draw flash).2.screen.latest.pixel 65 18 = some blank := by
  have hpicture : inked.AtPicture 33 1 := ⟨_, _, [strip, flash], rfl, by decide +kernel⟩
  have hstrip : FillsRow (.ofTiming 33 1) strip := by constructor <;> decide
  have hflash : EndsPicture (.ofTiming 33 1) flash := by constructor <;> decide
  obtain ⟨-, -, -, hdrawn, -, hends⟩ := rows_make_picture 33 1 inked hpicture.atRow [strip]
    (by decide) (by simpa using hstrip)
  obtain ⟨hdone, -, -, -, -, habove, hrow, hrest⟩ := hends flash hflash (by decide)
  refine ⟨hpicture.atRow, hstrip, hflash, ?_, hdone, ?_, ?_, ?_, ?_⟩
  · decide +kernel
  · exact (habove 1 (by decide) 0 (by decide)).trans (hdrawn 0 strip rfl 1 (by decide))
  · exact (habove 3 (by decide) 0 (by decide)).trans (hdrawn 0 strip rfl 3 (by decide))
  · exact hrow 0 (by decide)
  · exact hrest 65 (by decide) 18 (by decide) (by decide)

end Raster
end Zx81.Video
