import Zx81.Machine.Basic
import Zx81.Proofs.PassEffect

namespace Zx81

open Video (Scanline Ula)
open Z80 (Request)

namespace Engine

/-- The engine between two instructions of a turn: before the instruction, after it, after each
request for a maskable interrupt, and at the end of the turn. -/
def boundaries (c : Config) (e : Engine) (line : Scanline) : List Engine :=
  let stepped := e.stepped
  let first := (stepped.2.interruptIf (stepped.2.frameInterruptDue c stepped.1)).2
  let second := (first.interruptIf first.lineInterruptDue).2
  [e, stepped.2, first, second, (e.pass c line).engine]

/-- The engine at every boundary of a call of the loop. -/
def visits (c : Config) : Nat → Engine → Scanline → List Engine
  | 0, e, _ => [e]
  | bound + 1, e, line =>
    let p := e.pass c line
    e.boundaries c line ++ if lineDone c p.line then [] else visits c bound p.engine p.line

theorem mem_visits (c : Config) (bound : Nat) (e : Engine) (line : Scanline) :
    e ∈ visits c bound e line := by
  cases bound with
  | zero => exact List.mem_singleton.2 rfl
  | succ bound => exact List.mem_cons_self

/-- The loop ends at a boundary. -/
theorem passes_mem_visits (c : Config) (bound total : Nat) (e : Engine) (line : Scanline) :
    (passes c bound total e line).engine ∈ visits c bound e line := by
  induction bound generalizing total e line with
  | zero => exact List.mem_singleton.2 rfl
  | succ bound ih =>
    simp only [passes, visits]
    split
    · exact List.mem_append_left _ (by simp [boundaries])
    · exact List.mem_append_right _ (ih _ _ _)

theorem scan_eq (c : Config) (e : Engine) (line : Scanline) (stopped : Bool) :
    e.scan c stopped line =
      endScan (if stopped then ⟨0, (e.beginLine line).1, (e.beginLine line).2⟩
        else passes c Scanline.cutoff 0 (e.beginLine line).1 (e.beginLine line).2) := by
  simp only [scan]

/-- An invariant of the loop. The keyboard and the tape have no part in it, and the video chip none
but for the length of a line. -/
structure Stable (P : Engine → Prop) : Prop where
  load : ∀ {e : Engine}, P e → P e.load
  request : ∀ {e : Engine} (q : Request), P e → P (e.onBoard q.run).2
  congr : ∀ {e e' : Engine}, P e → e'.cpu = e.cpu → e'.board.memory = e.board.memory →
    e'.board.wiring = e.board.wiring → e'.board.qs = e.board.qs →
    e'.board.ula.lineLength = e.board.ula.lineLength → P e'

namespace Stable

variable {P : Engine → Prop} {c : Config} {e : Engine} {line : Scanline} (hP : Stable P)

include hP

theorem mapUla (h : P e) {f : Ula → Ula} (hf : ∀ u, (f u).lineLength = u.lineLength) :
    P (e.mapBoard (·.mapUla f)) := hP.congr h rfl rfl rfl rfl (hf e.board.ula)

theorem drawLine (h : P e) {f : Ula → Scanline → Ula × Scanline}
    (hf : ∀ u line, (f u line).1.lineLength = u.lineLength) : P (e.drawLine f line).1 :=
  hP.congr h rfl rfl rfl rfl (hf e.board.ula line)

theorem stepped (h : P e) : P e.stepped.2 :=
  hP.request .step (hP.load (hP.mapUla h fun _ => rfl))

theorem interruptIf (h : P e) (due : Bool) : P (e.interruptIf due).2 := by
  cases due with
  | false => exact h
  | true => exact hP.request .interrupt h

theorem deliver (h : P e) (t : Nat) : P (e.deliver c t).2 := by
  let first := (e.interruptIf (e.frameInterruptDue c t)).2
  have hfirst : P first := hP.interruptIf h _
  have hsecond : P (first.interruptIf first.lineInterruptDue).2 := hP.interruptIf hfirst _
  exact hP.congr hsecond rfl rfl rfl rfl rfl

theorem runInstruction (h : P e) : P (e.runInstruction c).2 := by
  rw [runInstruction_eq]
  exact hP.deliver (hP.stepped h) _

theorem lineNmi (h : P e) : P (e.lineNmi line).2 := by
  unfold Engine.lineNmi
  split
  · have hnmi : P (e.onBoard fun cpu b => cpu.nmi b (b.ula.haltWait line)).2 :=
      hP.request (.nmi (e.board.ula.haltWait line)) h
    exact hP.mapUla hnmi fun _ => rfl
  · exact h

theorem finishLine (h : P e) (t : Nat) : P (finishLine t e line).engine := by
  unfold Engine.finishLine
  split
  · exact hP.drawLine (hP.lineNmi h) Ula.lineLength_endLine
  · exact h

theorem pass (h : P e) : P (e.pass c line).engine := by
  have hran : P (e.runInstruction c).2 := hP.runInstruction h
  simp only [Engine.pass]
  rw [drawInstruction_eq]
  exact hP.finishLine (hP.drawLine hran (Ula.lineLength_draw _)) _

theorem boundaries (h : P e) : ∀ b ∈ e.boundaries c line, P b := by
  let stepped := e.stepped
  let first := (stepped.2.interruptIf (stepped.2.frameInterruptDue c stepped.1)).2
  have hstepped : P stepped.2 := hP.stepped h
  have hfirst : P first := hP.interruptIf hstepped _
  have hsecond : P (first.interruptIf first.lineInterruptDue).2 := hP.interruptIf hfirst _
  simp only [Engine.boundaries, List.forall_mem_cons]
  exact ⟨h, hstepped, hfirst, hsecond, hP.pass h, fun _ hnone => nomatch hnone⟩

theorem visits (h : P e) (bound : Nat) : ∀ b ∈ visits c bound e line, P b := by
  induction bound generalizing e line with
  | zero => exact List.forall_mem_singleton.2 h
  | succ bound ih =>
    intro b hb
    rcases List.mem_append.1 hb with hturn | hlater
    · exact hP.boundaries h b hturn
    · split at hlater
      · cases hlater
      · exact ih (hP.pass h) b hlater

theorem beginLine (h : P e) : P (e.beginLine line).1 := by
  unfold Engine.beginLine
  simp only
  split
  · exact hP.drawLine h fun _ _ => rfl
  · exact h

theorem endScan {p : Pass} (h : P p.engine) : P (endScan p).engine := by
  simp only [Engine.endScan]
  split
  · exact hP.mapUla h fun u => by rw [Ula.restartLine]
  · exact h

theorem scan (h : P e) (stopped : Bool) : P (e.scan c stopped line).engine := by
  have hbegun : P (e.beginLine line).1 := hP.beginLine h
  rw [scan_eq]
  apply hP.endScan
  split
  · exact hbegun
  · exact hP.visits hbegun Scanline.cutoff _ (passes_mem_visits ..)

end Stable
end Engine

namespace Machine

/-- The engine at every boundary of a call for a line. A stopped machine runs no instruction. -/
def visits (m : Machine) (line : Scanline) : List Engine :=
  let begun := m.engine.beginLine line
  if m.stopped then [begun.1] else Engine.visits m.config Scanline.cutoff begun.1 begun.2

theorem mem_visits (m : Machine) (line : Scanline) :
    (m.engine.beginLine line).1 ∈ m.visits line := by
  unfold visits
  simp only
  split
  · exact List.mem_singleton.2 rfl
  · exact Engine.mem_visits ..

section Stable

variable {P : Engine → Prop} (hP : Engine.Stable P) {m : Machine} (h : P m.engine)

include hP h

theorem visits_of_stable (line : Scanline) : ∀ e ∈ m.visits line, P e := by
  have hbegun : P (m.engine.beginLine line).1 := hP.beginLine h
  unfold visits
  simp only
  split
  · exact List.forall_mem_singleton.2 hbegun
  · exact hP.visits hbegun _

theorem scanOnto_of_stable (line : Scanline) : P (m.scanOnto line).2.1.engine := hP.scan h _

theorem runLine_of_stable : P m.runLine.2.engine := by
  have hscan : P (m.engine.scan m.config m.stopped m.line).engine := hP.scan h _
  simp only [runLine]
  split
  · exact hP.congr hscan rfl rfl rfl rfl rfl
  · exact hscan

theorem runLines_of_stable (n : Nat) : P (m.runLines n).engine := by
  induction n generalizing m with
  | zero => exact h
  | succ n ih =>
    have hline := runLine_of_stable hP h
    simp only [runLines]
    split
    · exact h
    · split
      · exact hline
      · exact ih hline

end Stable
end Machine
end Zx81
