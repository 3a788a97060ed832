import Zx81.Proofs.PictureRows

namespace Zx81.Video

/-- The samples of two lines, with the sync of the second. -/
def Scanline.append (first second : Scanline) : Scanline :=
  { second with samples := first.samples ++ second.samples }

variable {g : Geometry}

/-- Samples that leave the beam on the picture can be laid down before the others. -/
theorem Beam.sweep_append {b : Beam} {first : List UInt8} (hrow : (b.sweep g first).y < g.height)
    (second : List UInt8) :
    b.sweep g (first ++ second) = (b.sweep g first).sweep g second := by
  induction first generalizing b with
  | nil => rfl
  | cons colour rest ih =>
    simp only [List.cons_append, Beam.sweep] at hrow ⊢
    by_cases hon : ((b.paint g colour).move g).y < g.height
    · rw [if_pos hon] at hrow
      rw [if_pos hon, if_pos hon]
      exact ih hrow
    · -- The sweep stops at the lower edge, where the beam is not on the picture.
      rw [if_neg hon] at hrow
      exact absurd hrow hon

namespace Raster

theorem sweepLine_of_not_hasSync {line : Scanline} (hopen : line.hasSync = false) (b : Beam) :
    sweepLine g line b = b.sweep g line.samples.toList := by
  have hinvalid : validSync line = false := by rw [validSync, hopen, Bool.false_and]
  simp only [sweepLine, hinvalid, Bool.false_and, Bool.false_eq_true, if_false]

theorem sweepLine_append {first : Scanline} {b : Beam}
    (hrow : (b.sweep g first.samples.toList).y < g.height) (second : Scanline) :
    sweepLine g (first.append second) b =
      sweepLine g second (b.sweep g first.samples.toList) := by
  have hsamples : (first.append second).samples.toList =
      first.samples.toList ++ second.samples.toList := Array.toList_append
  have hsync : validSync (first.append second) = validSync second := rfl
  simp only [sweepLine, hsamples, hsync, Beam.sweep_append hrow]

/-- What a line does is decided by its sync and by the beam that it leaves. -/
theorem draw_eq_of_sweepLine {r : Raster} {b : Beam} {line line' : Scanline}
    (hlength : line.syncLength = line'.syncLength) (hsync : line.sync = line'.sync)
    (hswept : sweepLine r.geometry line b = sweepLine r.geometry line' r.beam) :
    ({ r with beam := b } : Raster).draw line = r.draw line' := by
  obtain ⟨g, beam, number, field, screen, frames, interlace⟩ := r
  have hvalid : validSync line = validSync line' := by
    rw [validSync, validSync, Scanline.hasSync, Scanline.hasSync, hlength, hsync]
  simp only [draw, completes, hswept, hvalid, hlength]
  rfl

/-- A line cut in two. -/
theorem draw_append {r : Raster} {first : Scanline} (hopen : first.hasSync = false)
    (hnone : (r.draw first).1 = false) (second : Scanline) :
    (r.draw first).2.draw second = r.draw (first.append second) := by
  have hrow := row_of_not_completes hnone
  rw [sweepLine_of_not_hasSync hopen] at hrow
  rw [draw_of_not_completes hnone, sweepLine_of_not_hasSync hopen]
  exact draw_eq_of_sweepLine rfl rfl (sweepLine_append hrow second).symm

/-- A line cut in any number of pieces. -/
theorem drawAll_foldr_append {r : Raster} {pieces : List Scanline}
    (hopen : ∀ piece ∈ pieces, piece.hasSync = false)
    (hnone : ∀ answer ∈ (r.drawAll pieces).1, answer = none) (last : Scanline) :
    (r.drawAll pieces).2.draw last = r.draw (pieces.foldr .append last) := by
  induction pieces generalizing r with
  | nil => rfl
  | cons piece pieces ih =>
    rw [drawAll_cons] at hnone
    have hfirst : (r.draw piece).1 = false := by simpa using hnone _ List.mem_cons_self
    have hrest := ih (fun later hlater => hopen later (List.mem_cons_of_mem _ hlater))
      fun answer hanswer => hnone answer (List.mem_cons_of_mem _ hanswer)
    rw [drawAll_cons, List.foldr_cons, hrest]
    exact draw_append (hopen piece List.mem_cons_self) hfirst _

/-- A line whose first part, drawn without a sync, completes no picture can be drawn in two calls:
they leave the raster and give the answer that one call does. The same holds of any number of
cuts. -/
theorem cut_lines_draw_alike (r : Raster) :
    (∀ (first second : Array UInt8) (pulse syncLength : Nat) (sync : Sync),
      (r.draw ⟨first, pulse, .absent⟩).1 = false →
        (r.draw ⟨first, pulse, .absent⟩).2.draw ⟨second, syncLength, sync⟩ =
          r.draw ⟨first ++ second, syncLength, sync⟩) ∧
      ∀ (pieces : List Scanline) (last : Scanline), (∀ piece ∈ pieces, piece.hasSync = false) →
        (∀ answer ∈ (r.drawAll pieces).1, answer = none) →
        (r.drawAll pieces).2.draw last = r.draw (pieces.foldr .append last) := by
  constructor
  · intro first second pulse syncLength sync hnone
    have hopen : Scanline.hasSync ⟨first, pulse, .absent⟩ = false := rfl
    exact draw_append hopen hnone ⟨second, syncLength, sync⟩
  · intro pieces last hopen hnone
    exact drawAll_foldr_append hopen hnone last

/-- The first of two pieces runs past the right edge as far as the beam may, and the second turns
it. -/
theorem inked_draws_alike :
    let first : Scanline := ⟨.replicate 129 paper, 40, .absent⟩
    let second : Scanline := ⟨#[ink, paper], 40, .vertical⟩
    let drawn := (inked.draw first).2.draw second
    (inked.draw first).1 = false ∧ (inked.drawAll [first, first]).1 = [none, none] ∧
      drawn = inked.draw (first.append second) ∧
      (inked.drawAll [first, first]).2.draw second =
        inked.draw (first.append (first.append second)) ∧
      drawn.1 = false ∧ drawn.2.current.pixel 0 1 = some paper := by
  intro first second drawn
  have hnone : (inked.draw first).1 = false := by decide +kernel
  have hnone' : (inked.drawAll [first, first]).1 = [none, none] := by decide +kernel
  obtain ⟨htwo, hmany⟩ := cut_lines_draw_alike inked
  refine ⟨hnone, hnone', htwo _ _ 40 _ _ hnone, ?_, by decide +kernel, by decide +kernel⟩
  refine hmany [first, first] second ?_ ?_
  · simp [first, Scanline.hasSync]
  · simp [hnone']

end Raster
end Zx81.Video
