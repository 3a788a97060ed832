import Zx81.Video.Raster

namespace Zx81.Video

@[simp] theorem size_blankFrom (pixels : Array UInt8) (start n : Nat) :
    (blankFrom pixels start n).size = pixels.size := by
  induction n generalizing pixels start with
  | zero => rfl
  | succ n ih => rw [blankFrom, ih, Array.size_setIfInBounds]

theorem getElem?_blankFrom (pixels : Array UInt8) (start n i : Nat) :
    (blankFrom pixels start n)[i]? =
      if start ≤ i ∧ i < start + n ∧ i < pixels.size then some blank else pixels[i]? := by
  induction n generalizing pixels start with
  | zero => rw [blankFrom, if_neg (by omega)]
  | succ n ih =>
    rw [blankFrom, ih, Array.size_setIfInBounds, Array.getElem?_setIfInBounds]
    by_cases hfirst : start = i
    · subst hfirst
      by_cases hin : start < pixels.size
      · simp [hin]
      · simp [hin]
    · grind

namespace Beam

variable {g : Geometry}

@[simp] theorem x_paint (b : Beam) (colour : UInt8) : (b.paint g colour).x = b.x := rfl

@[simp] theorem y_paint (b : Beam) (colour : UInt8) : (b.paint g colour).y = b.y := rfl

theorem getElem?_paint (b : Beam) (colour : UInt8) (i : Nat) :
    (b.paint g colour).pixels[i]? =
      if b.x < g.width ∧ b.y < g.height ∧ b.y * g.width + b.x = i ∧ i < b.pixels.size then
        some colour
      else b.pixels[i]? := by
  obtain ⟨x, y, pixels⟩ := b
  simp only [paint]
  by_cases hin : x < g.width ∧ y < g.height
  · rw [if_pos hin, Array.getElem?_setIfInBounds]
    grind
  · rw [if_neg hin, if_neg fun h => hin ⟨h.1, h.2.1⟩]

@[simp] theorem size_paint (b : Beam) (colour : UInt8) :
    (b.paint g colour).pixels.size = b.pixels.size := by
  simp only [paint]
  split
  · exact Array.size_setIfInBounds
  · rfl

theorem x_move (b : Beam) :
    (b.move g).x = if b.x + 1 < g.width + syncTolerance then b.x + 1 else 0 :=
  apply_ite Beam.x _ _ _

theorem y_move (b : Beam) :
    (b.move g).y = if b.x + 1 < g.width + syncTolerance then b.y else b.y + 1 :=
  apply_ite Beam.y _ _ _

@[simp] theorem pixels_move (b : Beam) : (b.move g).pixels = b.pixels :=
  (apply_ite Beam.pixels _ _ _).trans (ite_self _)

theorem nextRow_eq (b : Beam) : b.nextRow g = ⟨0, b.y + 1,
    if b.y < g.height then blankFrom b.pixels (b.y * g.width + b.x) (g.width - b.x)
    else b.pixels⟩ := rfl

/-- The beam is on a row that may run on a little, over a buffer of the picture's size. -/
structure Within (g : Geometry) (b : Beam) : Prop where
  x : b.x < g.width + syncTolerance
  size : b.pixels.size = g.area

theorem Within.step {b : Beam} (h : Within g b) (colour : UInt8) :
    Within g ((b.paint g colour).move g) := by
  constructor
  · rw [x_move]
    split
    · assumption
    · exact Nat.add_pos_right _ (by decide)
  · rw [pixels_move, size_paint, h.size]

theorem Within.sweep {b : Beam} (h : Within g b) (samples : List UInt8) :
    Within g (b.sweep g samples) := by
  induction samples generalizing b with
  | nil => exact h
  | cons colour rest ih =>
    have hstep := h.step colour
    simp only [Beam.sweep]
    split
    · exact ih hstep
    · exact hstep

theorem Within.nextRow {b : Beam} (h : Within g b) : Within g (b.nextRow g) := by
  rw [nextRow_eq]
  constructor
  · exact Nat.add_pos_right _ (by decide)
  · simp only
    split
    · rw [size_blankFrom, h.size]
    · exact h.size

def passed (g : Geometry) (b : Beam) : Nat := b.y * g.width + min b.x g.width

theorem passed_move (b : Beam) :
    (b.move g).passed g = b.y * g.width + min (b.x + 1) g.width := by
  rw [passed, x_move, y_move]
  split
  · rfl
  · rw [Nat.zero_min, Nat.succ_mul]
    omega

theorem passed_nextRow (b : Beam) : (b.nextRow g).passed g = b.y * g.width + g.width := by
  rw [nextRow_eq, passed, Nat.zero_min, Nat.succ_mul, Nat.add_zero]

/-- Below the lower edge all pixels lie behind the beam. -/
theorem area_le_passed {b : Beam} (h : g.height ≤ b.y) : g.area ≤ b.passed g := by
  have hrows := Nat.mul_le_mul_right g.width h
  rw [passed, Geometry.area, Nat.mul_comm]
  omega

/-- Two beams at one place, over buffers with the same pixels behind them. -/
structure Agrees (g : Geometry) (b b' : Beam) : Prop where
  x : b.x = b'.x
  y : b.y = b'.y
  left : Within g b
  right : Within g b'
  pixels : ∀ i < b.passed g, b.pixels[i]? = b'.pixels[i]?

/-- The pixels behind the beams are the same, and so are those outside the picture. -/
theorem Agrees.getElem? {b b' : Beam} (h : Agrees g b b') {i : Nat}
    (hi : i < b.passed g ∨ g.area ≤ i) : b.pixels[i]? = b'.pixels[i]? := by
  rcases hi with hbehind | hout
  · exact h.pixels i hbehind
  · rw [Array.getElem?_eq_none (by rw [h.left.size]; exact hout),
      Array.getElem?_eq_none (by rw [h.right.size]; exact hout)]

theorem Agrees.step {b b' : Beam} (h : Agrees g b b') (colour : UInt8) :
    Agrees g ((b.paint g colour).move g) ((b'.paint g colour).move g) := by
  refine ⟨?_, ?_, h.left.step colour, h.right.step colour, ?_⟩
  · rw [x_move, x_move, x_paint, x_paint, h.x]
  · rw [y_move, y_move, x_paint, x_paint, y_paint, y_paint, h.x, h.y]
  · intro i hi
    rw [passed_move, x_paint, y_paint] at hi
    rw [pixels_move, pixels_move, getElem?_paint, getElem?_paint, ← h.x, ← h.y, h.left.size,
      h.right.size]
    split
    case isTrue => rfl
    case isFalse hplace =>
      -- The pixel under the beam is painted unless it lies outside the picture.
      apply h.getElem?
      have hpassed : b.passed g = b.y * g.width + min b.x g.width := rfl
      rcases Nat.lt_or_ge b.y g.height with hrow | hbelow
      · omega
      · have harea := area_le_passed hbelow
        omega

theorem Agrees.sweep {b b' : Beam} (h : Agrees g b b') (samples : List UInt8) :
    Agrees g (b.sweep g samples) (b'.sweep g samples) := by
  induction samples generalizing b b' with
  | nil => exact h
  | cons colour rest ih =>
    have hstep := h.step colour
    simp only [Beam.sweep, hstep.y]
    split
    · exact ih hstep
    · exact hstep

theorem Agrees.nextRow {b b' : Beam} (h : Agrees g b b') :
    Agrees g (b.nextRow g) (b'.nextRow g) := by
  refine ⟨rfl, congrArg (· + 1) h.y, h.left.nextRow, h.right.nextRow, ?_⟩
  intro i hi
  have hpassed : b.passed g = b.y * g.width + min b.x g.width := rfl
  rw [passed_nextRow] at hi
  simp only [nextRow_eq, ← h.x, ← h.y]
  split
  case isTrue =>
    rw [getElem?_blankFrom, getElem?_blankFrom, h.left.size, h.right.size]
    split
    · rfl
    · apply h.getElem?
      omega
  case isFalse hbelow =>
    have harea := area_le_passed (Nat.le_of_not_lt hbelow)
    apply h.getElem?
    omega

theorem size_blankRest (b : Beam) : (b.blankRest g).size = b.pixels.size :=
  size_blankFrom b.pixels _ _

/-- The rest is blanked from the beam on, so that nothing of what lay under the two beams is left,
unless the beam is past the right edge of a row of the picture. -/
theorem Agrees.blankRest {b b' : Beam} (h : Agrees g b b')
    (hover : b.x ≤ g.width ∨ g.height ≤ b.y) : b.blankRest g = b'.blankRest g := by
  have hpassed : b.passed g = b.y * g.width + min b.x g.width := rfl
  apply Array.ext_getElem?
  intro i
  change (blankFrom b.pixels _ _)[i]? = (blankFrom b'.pixels _ _)[i]?
  rw [getElem?_blankFrom, getElem?_blankFrom, ← h.x, ← h.y, h.left.size, h.right.size]
  split
  · rfl
  · apply h.getElem?
    rcases hover with hrow | hbelow
    · omega
    · have harea := area_le_passed hbelow
      omega

theorem Within.sweepLine {b : Beam} (h : Within g b) (line : Scanline) :
    Within g (Raster.sweepLine g line b) := by
  have hswept := h.sweep line.samples.toList
  simp only [Raster.sweepLine]
  split
  · exact hswept.nextRow
  · exact hswept

theorem Agrees.sweepLine {b b' : Beam} (h : Agrees g b b') (line : Scanline) :
    Agrees g (Raster.sweepLine g line b) (Raster.sweepLine g line b') := by
  have hswept := h.sweep line.samples.toList
  simp only [Raster.sweepLine, hswept.x]
  split
  · exact hswept.nextRow
  · exact hswept

end Beam

namespace Raster

variable {g : Geometry}

/-- A line that completes the picture leaves the beam on a row of it or below the lower edge. -/
theorem row_of_completes {line : Scanline} {b : Beam}
    (h : completes g line (sweepLine g line b).y) :
    (sweepLine g line b).x ≤ g.width ∨ g.height ≤ (sweepLine g line b).y := by
  rw [completes, Bool.or_eq_true, decide_eq_true_eq, Bool.and_eq_true, Bool.and_eq_true] at h
  rcases h with hbelow | ⟨⟨hsync, -⟩, -⟩
  · exact .inr hbelow
  · left
    simp only [sweepLine, hsync, Bool.true_and, decide_eq_true_eq]
    split
    · exact Nat.zero_le _
    · omega

/-- Between lines: the beam is on a row of the picture, over a buffer of its size. -/
structure Ready (g : Geometry) (r : Raster) : Prop where
  geometry : r.geometry = g
  beam : r.beam.Within g
  row : r.beam.y < g.height

theorem size_reusable (pixels : Array UInt8) : (reusable g pixels).size = g.area := by
  rw [reusable]
  split
  · assumption
  · exact Array.size_replicate

theorem draw_fst (r : Raster) (line : Scanline) : (r.draw line).1 =
    completes r.geometry line (sweepLine r.geometry line r.beam).y := rfl

/-- A line that completes no picture moves the beam and leaves the rest. -/
theorem draw_of_not_completes {r : Raster} {line : Scanline} (h : (r.draw line).1 = false) :
    (r.draw line).2 = { r with beam := sweepLine r.geometry line r.beam } := by
  obtain ⟨g, beam, number, field, screen, frames, interlace⟩ := r
  change (if completes g line (sweepLine g line beam).y then _ else _) = _
  rw [draw_fst] at h
  rw [h]
  rfl

/-- A line that completes a picture shows it and starts the next one over the one shown before. -/
theorem draw_of_completes {r : Raster} {line : Scanline} (h : (r.draw line).1 = true) :
    (r.draw line).2.geometry = r.geometry ∧
      (r.draw line).2.beam = ⟨0, 0, reusable r.geometry r.screen.latest.pixels⟩ ∧
      (r.draw line).2.frames = r.frames + 1 ∧
      (r.draw line).2.screen.latest = ⟨r.geometry.width, r.geometry.height,
        (sweepLine r.geometry line r.beam).blankRest r.geometry, r.frames, r.interlace.odd⟩ := by
  obtain ⟨g, beam, number, field, screen, frames, interlace⟩ := r
  have hdraw : (draw ⟨g, beam, number, field, screen, frames, interlace⟩ line).2 =
      completeFrame ⟨g, sweepLine g line beam, number, field, screen, frames, interlace⟩
        line.syncLength := by
    change (if completes g line (sweepLine g line beam).y then _ else _) = _
    rw [draw_fst] at h
    rw [h]
    rfl
  rw [hdraw]
  exact ⟨rfl, rfl, rfl, rfl⟩

/-- A line that completes no picture leaves the beam on it. -/
theorem row_of_not_completes {r : Raster} {line : Scanline} (h : (r.draw line).1 = false) :
    (sweepLine r.geometry line r.beam).y < r.geometry.height := by
  rw [draw_fst, completes, Bool.or_eq_false_iff, decide_eq_false_iff_not] at h
  exact Nat.lt_of_not_le h.1

theorem Ready.draw {r : Raster} (h : r.Ready g) (line : Scanline) : (r.draw line).2.Ready g := by
  obtain ⟨hg, hbeam, hrow⟩ := h
  cases hdone : (r.draw line).1 with
  | false =>
    have hnext := row_of_not_completes hdone
    rw [hg] at hnext
    rw [draw_of_not_completes hdone, hg]
    exact ⟨rfl, hbeam.sweepLine line, hnext⟩
  | true =>
    obtain ⟨hgeometry, hnext, -, -⟩ := draw_of_completes hdone
    refine ⟨hgeometry.trans hg, ?_, ?_⟩
    · rw [hnext]
      exact ⟨Nat.add_pos_right _ (by decide), hg ▸ size_reusable _⟩
    · rw [hnext]
      exact Nat.zero_lt_of_lt hrow

/-- Draws lines one after the other. The answers are the pictures that the lines completed. -/
def drawAll : Raster → List Scanline → List (Option Frame) × Raster
  | r, [] => ([], r)
  | r, line :: lines =>
    let drawn := r.draw line
    let rest := drawn.2.drawAll lines
    ((if drawn.1 then some drawn.2.screen.latest else none) :: rest.1, rest.2)

@[simp] theorem drawAll_nil (r : Raster) : r.drawAll [] = ([], r) := rfl

theorem drawAll_cons (r : Raster) (line : Scanline) (lines : List Scanline) :
    r.drawAll (line :: lines) =
      ((if (r.draw line).1 then some (r.draw line).2.screen.latest else none) ::
        ((r.draw line).2.drawAll lines).1, ((r.draw line).2.drawAll lines).2) := rfl

theorem drawAll_append (r : Raster) (lines more : List Scanline) :
    r.drawAll (lines ++ more) = ((r.drawAll lines).1 ++ ((r.drawAll lines).2.drawAll more).1,
      ((r.drawAll lines).2.drawAll more).2) := by
  induction lines generalizing r with
  | nil => rfl
  | cons line lines ih => simp only [List.cons_append, drawAll_cons, ih]

theorem Ready.drawAll {r : Raster} (h : r.Ready g) (lines : List Scanline) :
    (r.drawAll lines).2.Ready g := by
  induction lines generalizing r with
  | nil => exact h
  | cons line lines ih => exact ih (h.draw line)

theorem Ready.shown {r : Raster} (h : r.Ready g) {line : Scanline}
    (hdone : (r.draw line).1 = true) :
    (r.draw line).2.screen.latest.number = r.frames ∧
      (r.draw line).2.screen.latest.width = g.width ∧
      (r.draw line).2.screen.latest.height = g.height ∧
      (r.draw line).2.screen.latest.pixels.size = g.area := by
  obtain ⟨-, -, -, hlatest⟩ := draw_of_completes hdone
  have hswept := h.beam.sweepLine line
  rw [hlatest, h.geometry]
  exact ⟨rfl, rfl, rfl, (Beam.size_blankRest _).trans hswept.size⟩

/-- The pictures among the answers are numbered on from those completed before. -/
theorem Ready.numbered {r : Raster} (h : r.Ready g) (lines : List Scanline) :
    (r.drawAll lines).2.frames = r.frames + (r.drawAll lines).1.countP Option.isSome ∧
      ∀ k f, ((r.drawAll lines).1.filterMap id)[k]? = some f →
        f.number = r.frames + k ∧ f.width = g.width ∧ f.height = g.height ∧
          f.pixels.size = g.area := by
  induction lines generalizing r with
  | nil => exact ⟨rfl, fun k f hf => by simp at hf⟩
  | cons line lines ih =>
    obtain ⟨hframes, hshown⟩ := ih (h.draw line)
    rw [drawAll_cons]
    cases hdone : (r.draw line).1 with
    | false =>
      have hsame : (r.draw line).2.frames = r.frames := by rw [draw_of_not_completes hdone]
      rw [hsame] at hframes hshown
      exact ⟨hframes, hshown⟩
    | true =>
      obtain ⟨-, -, hnext, -⟩ := draw_of_completes hdone
      rw [hnext] at hframes hshown
      refine ⟨?_, ?_⟩
      · simp only [if_true, List.countP_cons, Option.isSome_some]
        omega
      · intro k f hf
        cases k with
        | zero =>
          obtain rfl : (r.draw line).2.screen.latest = f := by simpa using hf
          exact h.shown hdone
        | succ k =>
          have hlater := hshown k f (by simpa using hf)
          rwa [Nat.add_assoc, Nat.add_comm 1 k] at hlater

/-- Two rasters of one geometry with their beams at one place and the same pixels behind them. -/
structure Abreast (g : Geometry) (r r' : Raster) : Prop where
  left : r.geometry = g
  right : r'.geometry = g
  beams : r.beam.Agrees g r'.beam

/-- A line completes a picture on both or on neither, and the same one. -/
theorem Abreast.draw {r r' : Raster} (h : Abreast g r r') (line : Scanline) :
    Abreast g (r.draw line).2 (r'.draw line).2 ∧ (r.draw line).1 = (r'.draw line).1 ∧
      ((r.draw line).1 = true →
        (r.draw line).2.screen.latest.pixels = (r'.draw line).2.screen.latest.pixels) := by
  obtain ⟨hg, hg', hbeams⟩ := h
  have hswept := hbeams.sweepLine line
  have hboth : (r.draw line).1 = (r'.draw line).1 := by
    rw [draw_fst, draw_fst, hg, hg', hswept.y]
  refine ⟨?_, hboth, ?_⟩
  · cases hdone : (r.draw line).1 with
    | false =>
      rw [draw_of_not_completes hdone, draw_of_not_completes (hboth ▸ hdone), hg, hg']
      exact ⟨rfl, rfl, hswept⟩
    | true =>
      obtain ⟨hgeometry, hnext, -, -⟩ := draw_of_completes hdone
      obtain ⟨hgeometry', hnext', -, -⟩ := draw_of_completes (hboth ▸ hdone)
      refine ⟨hgeometry.trans hg, hgeometry'.trans hg', ?_⟩
      rw [hnext, hnext', hg, hg']
      have hstart (pixels : Array UInt8) : (⟨0, 0, reusable g pixels⟩ : Beam).Within g :=
        ⟨Nat.add_pos_right _ (by decide), size_reusable pixels⟩
      refine ⟨rfl, rfl, hstart _, hstart _, ?_⟩
      intro i hi
      simp [Beam.passed] at hi
  · intro hdone
    obtain ⟨-, -, -, hlatest⟩ := draw_of_completes hdone
    obtain ⟨-, -, -, hlatest'⟩ := draw_of_completes (hboth ▸ hdone)
    rw [hlatest, hlatest', hg, hg']
    rw [draw_fst, hg] at hdone
    exact hswept.blankRest (row_of_completes hdone)

theorem Abreast.drawAll {r r' : Raster} (h : Abreast g r r') (lines : List Scanline) :
    (r.drawAll lines).1.map (Option.map Frame.pixels) =
      (r'.drawAll lines).1.map (Option.map Frame.pixels) := by
  induction lines generalizing r r' with
  | nil => rfl
  | cons line lines ih =>
    obtain ⟨hnext, hboth, hsame⟩ := h.draw line
    rw [drawAll_cons, drawAll_cons, List.map_cons, List.map_cons, ih hnext, ← hboth]
    congr 1
    split
    · rw [Option.map_some, Option.map_some, hsame ‹_›]
    · rfl

/-- A new raster, whatever the screen shows and whichever field comes first. -/
def start (tstatesPerLine linesPerFrame : Nat) (screen : Screen) (interlace : Interlace) : Raster :=
  { new tstatesPerLine linesPerFrame with screen, interlace }

/-- Reached from a new raster by lines of which the last, if there are any, completed a picture. -/
def AtPicture (tstatesPerLine linesPerFrame : Nat) (r : Raster) : Prop :=
  ∃ screen interlace lines,
    let drawn := (start tstatesPerLine linesPerFrame screen interlace).drawAll lines
    drawn.2 = r ∧ ∀ answer ∈ drawn.1.getLast?, answer.isSome

section Start

variable {t l : Nat}

theorem ready_start (screen : Screen) (interlace : Interlace) :
    (start t l screen interlace).Ready (.ofTiming t l) :=
  ⟨rfl, ⟨Nat.add_pos_right _ (by decide), Array.size_replicate⟩, Nat.add_pos_right _ (by decide)⟩

theorem AtPicture.ready {r : Raster} (h : r.AtPicture t l) : r.Ready (.ofTiming t l) := by
  obtain ⟨screen, interlace, lines, rfl, -⟩ := h
  exact (ready_start screen interlace).drawAll lines

theorem AtPicture.beam {r : Raster} (h : r.AtPicture t l) : r.beam.x = 0 ∧ r.beam.y = 0 := by
  obtain ⟨screen, interlace, lines, rfl, hlast⟩ := h
  rcases List.eq_nil_or_concat lines with rfl | ⟨before, line, rfl⟩
  · exact ⟨rfl, rfl⟩
  · rw [List.concat_eq_append, drawAll_append] at hlast ⊢
    rw [drawAll_cons, drawAll_nil, List.getLast?_concat] at hlast
    have hanswer := hlast _ rfl
    rw [Option.isSome_ite] at hanswer
    obtain ⟨-, hnext, -, -⟩ := draw_of_completes hanswer
    exact ⟨congrArg Beam.x hnext, congrArg Beam.y hnext⟩

theorem AtPicture.abreast {r r' : Raster} (h : r.AtPicture t l) (h' : r'.AtPicture t l) :
    Abreast (.ofTiming t l) r r' := by
  obtain ⟨hx, hy⟩ := h.beam
  obtain ⟨hx', hy'⟩ := h'.beam
  refine ⟨h.ready.geometry, h'.ready.geometry, hx.trans hx'.symm, hy.trans hy'.symm, h.ready.beam,
    h'.ready.beam, ?_⟩
  intro i hi
  simp [Beam.passed, hx, hy] at hi

end Start

/-- Lines drawn from a new raster on keep the beam on the picture and number the pictures that
they complete; and from the start of a picture on, what was drawn before makes no difference. -/
theorem pictures_from_lines (tstatesPerLine linesPerFrame : Nat) (screen : Screen)
    (interlace : Interlace) (lines : List Scanline) :
    let first := start tstatesPerLine linesPerFrame screen interlace
    let g := first.geometry
    let answers := (first.drawAll lines).1
    let last := (first.drawAll lines).2
    (last.beam.x < g.width + syncTolerance ∧ last.beam.y < g.height ∧
        last.beam.pixels.size = g.width * g.height) ∧
      last.frames = answers.countP Option.isSome ∧
      (∀ k (f : Frame), (answers.filterMap id)[k]? = some f → f.number = k ∧ f.width = g.width ∧
        f.height = g.height ∧ f.pixels.size = g.width * g.height) ∧
      ∀ r r' : Raster, r.AtPicture tstatesPerLine linesPerFrame →
        r'.AtPicture tstatesPerLine linesPerFrame →
        (r.drawAll lines).1.map (Option.map Frame.pixels) =
          (r'.drawAll lines).1.map (Option.map Frame.pixels) := by
  intro first g answers last
  have hfirst : first.Ready g := ready_start screen interlace
  have hlast : last.Ready g := hfirst.drawAll lines
  obtain ⟨hframes, hshown⟩ := hfirst.numbered lines
  refine ⟨⟨hlast.beam.x, hlast.row, hlast.beam.size⟩, ?_, ?_, ?_⟩
  · exact hframes.trans (Nat.zero_add _)
  · intro k f hf
    have hnumber := hshown k f hf
    rwa [show first.frames = 0 from rfl, Nat.zero_add] at hnumber
  · intro r r' h h'
    exact (h.abreast h').drawAll lines

/-- One sample, and a sync that ends the picture. -/
def flash : Scanline := ⟨#[paper], 351, .vertical⟩

/-- A raster that draws over a picture all in ink. -/
def overInk : Raster := ((start 1 1 ⟨{ pixels := .replicate 38 ink }⟩ {}).drawAll [flash]).2

theorem overInk_shows : overInk.beam.pixels = .replicate 38 ink ∧
    (overInk.drawAll [flash]).1.map (Option.map Frame.pixels) =
      [some (#[paper] ++ .replicate 37 blank)] := by
  have hnew : (new 1 1).AtPicture 1 1 := ⟨{}, {}, [], rfl, fun _ h => nomatch h⟩
  have hused : overInk.AtPicture 1 1 := ⟨_, _, [flash], rfl, by decide +kernel⟩
  have hsame := (pictures_from_lines 1 1 {} {} [flash]).2.2.2 overInk (new 1 1) hused hnew
  refine ⟨by decide +kernel, ?_⟩
  rw [hsame]
  decide +kernel

end Raster
end Zx81.Video
