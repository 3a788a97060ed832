import Mathlib.Algebra.BigOperators.Intervals
import Zx81.Proofs.LoopInvariant

namespace Zx81

open Video (Ula Scanline ShiftRegister)
open Z80 (Cpu)

namespace Engine

/-- How many maskable interrupts are accepted after the next instruction. -/
def acceptances (c : Config) (e : Engine) : Nat :=
  let stepped := e.stepped
  let frame := stepped.2.frameInterruptDue c stepped.1
  let first := (stepped.2.interruptIf frame).2
  (frame && stepped.2.cpu.accepts).toNat + (first.lineInterruptDue && first.cpu.accepts).toNat

def afterPass (c : Config) (s : Engine × Scanline) : Engine × Scanline :=
  ((s.1.pass c s.2).engine, (s.1.pass c s.2).line)

def passTime (c : Config) (s : Engine × Scanline) : Nat := (s.1.pass c s.2).tstates

section Turn

variable (c : Config) (e : Engine) (line : Scanline)

/-- The frame interrupt and the line interrupt are not both accepted after one instruction. -/
theorem acceptances_le : e.acceptances c ≤ 1 := by
  let stepped := e.stepped
  let frame := stepped.2.frameInterruptDue c stepped.1
  let first := (stepped.2.interruptIf frame).2
  change (frame && stepped.2.cpu.accepts).toNat +
    (first.lineInterruptDue && first.cpu.accepts).toNat ≤ 1
  cases hfirst : frame && stepped.2.cpu.accepts with
  | false =>
    have hsecond := (first.lineInterruptDue && first.cpu.accepts).toNat_le
    rw [Bool.toNat_false]
    omega
  | true =>
    obtain ⟨hdue, haccepts⟩ : frame = true ∧ stepped.2.cpu.accepts = true := by
      simpa using hfirst
    have htaken : first = (stepped.2.onBoard Cpu.interrupt).2 := by
      simp only [first, interruptIf, hdue, cond_true]
    have hshut : first.cpu.accepts = false := by
      rw [htaken]
      exact (stepped.2.cpu.interrupt_board stepped.2.board haccepts).2.2.1
    rw [hshut, Bool.and_false]
    exact Nat.le_refl 1

/-- What an instruction sends to a line with room for it. -/
theorem length_drawInstruction (t : Nat)
    (hroom : line.length + 2 * t ≤ Scanline.capacity) :
    (e.drawInstruction t line).2.length = line.length + 2 * t := by
  obtain ⟨samples, hdrawn, hsize⟩ := Ula.draw_snd t e.board.ula line
  have hline : (e.drawInstruction t line).2 = (e.board.ula.draw t line).2 := by
    rw [drawInstruction_eq]
    rfl
  have hlength : (e.drawInstruction t line).2.length = samples.size := by
    rw [hline, hdrawn]
    rfl
  rw [hlength, hsize]
  omega

/-- The end of a turn takes samples away only where it leaves a sync. -/
theorem line_pass :
    let ran := e.runInstruction c
    let drawn := ran.2.drawInstruction ran.1 line
    (e.pass c line).line = drawn.2 ∨ (e.pass c line).line.hasSync := by
  intro ran drawn
  obtain ⟨n, e', line', hfinish, -, -, -, hclosed⟩ := drawn.1.finishLine_effect drawn.2 ran.1
  have hline : (e.pass c line).line = (Ula.close n drawn.1.board.ula drawn.2).2 := by
    have hpass : e.pass c line = finishLine ran.1 drawn.1 drawn.2 := by
      simp only [pass, ran, drawn]
    rw [hpass, hfinish]
    exact congrArg Prod.snd hclosed
  rw [hline]
  rcases Ula.close_snd n drawn.1.board.ula drawn.2 with hsame | hsync
  · exact .inl hsame
  · right
    rw [Scanline.hasSync, hsync]
    rfl

end Turn

section Loop

variable {c : Config} {s : Engine × Scanline} {k : ℕ}

/-- After `k` turns none of which ended the line it has eight samples for each. -/
theorem length_iterate (h : ∀ i < k, lineDone c ((afterPass c)^[i + 1] s).2 = false) :
    8 * k ≤ ((afterPass c)^[k] s).2.length := by
  induction k with
  | zero => exact Nat.zero_le _
  | succ k ih =>
    have hbefore := ih fun i hi => h i (by omega)
    have hnot := h k (by omega)
    rw [Function.iterate_succ_apply'] at hnot ⊢
    have hgrown := ((afterPass c)^[k] s).1.length_pass c ((afterPass c)^[k] s).2 hnot
    change _ ≤ (((afterPass c)^[k] s).1.pass c ((afterPass c)^[k] s).2).line.length
    omega

/-- One of the first 500 turns ends the line. -/
theorem exists_lineDone (c : Config) (s : Engine × Scanline) :
    ∃ i < 500, lineDone c ((afterPass c)^[i + 1] s).2 := by
  by_contra hnone
  have hnot : ∀ i < 500, lineDone c ((afterPass c)^[i + 1] s).2 = false := by
    intro i hi
    by_contra hdone
    exact hnone ⟨i, hi, by simpa using hdone⟩
  have hlength : 8 * 500 ≤ ((afterPass c)^[500] s).2.length := length_iterate hnot
  have hlast : lineDone c ((afterPass c)^[500] s).2 = false := hnot 499 (by omega)
  have hlimit := limit_le c
  simp only [lineDone, Bool.or_eq_false_iff, decide_eq_false_iff_not] at hlast
  simp only [Scanline.cutoff] at hlimit
  omega

/-- One turn of the loop. -/
theorem passes_succ (c : Config) (bound total : Nat) (s : Engine × Scanline) :
    passes c (bound + 1) total s.1 s.2 =
      if lineDone c (afterPass c s).2 then
        ⟨total + passTime c s, (afterPass c s).1, (afterPass c s).2⟩
      else passes c bound (total + passTime c s) (afterPass c s).1 (afterPass c s).2 := rfl

/-- The loop in terms of its turns, of which the last alone ends the line. -/
theorem passes_eq_iterate {bound : Nat} (total : Nat) (hk : k < bound)
    (hdone : lineDone c ((afterPass c)^[k + 1] s).2)
    (hnot : ∀ i < k, lineDone c ((afterPass c)^[i + 1] s).2 = false) :
    passes c bound total s.1 s.2 =
      ⟨total + ∑ i ∈ Finset.range (k + 1), passTime c ((afterPass c)^[i] s),
        ((afterPass c)^[k + 1] s).1, ((afterPass c)^[k + 1] s).2⟩ := by
  induction k generalizing bound total s with
  | zero =>
    obtain ⟨bound, rfl⟩ := Nat.exists_eq_succ_of_ne_zero (Nat.ne_of_gt hk)
    have hfirst : lineDone c (afterPass c s).2 = true := hdone
    rw [passes_succ, if_pos hfirst, Finset.sum_range_one]
    rfl
  | succ k ih =>
    obtain ⟨bound, rfl⟩ := Nat.exists_eq_succ_of_ne_zero (Nat.ne_of_gt (Nat.zero_lt_of_lt hk))
    have hfirst : lineDone c (afterPass c s).2 = false := hnot 0 (Nat.succ_pos k)
    have hrest := ih (s := afterPass c s) (total + passTime c s) (Nat.lt_of_succ_lt_succ hk) hdone
      fun i hi => hnot (i + 1) (Nat.succ_lt_succ hi)
    rw [passes_succ, if_neg (by simp [hfirst]), Finset.sum_range_succ']
    refine hrest.trans (congrArg (Pass.mk · _ _) ?_)
    simp only [Function.iterate_succ_apply, Function.iterate_zero_apply]
    omega

end Loop

/-- The loop stays within the buffer and ends. From any state of the machine, a turn on a line below
the cutoff accepts one maskable interrupt at most, sends 8 to 84 samples, each to a line that is not
full, and takes some away only with a sync. A call, with a stop flag that is looked up before each
turn, is over after 500 turns at the latest: because it was stopped, or because the last turn, and
no other, left a sync or a line of the length at which lines are cut. -/
theorem loop_bounded (c : Config) (e : Engine) (line : Scanline) :
    (line.length < Scanline.cutoff →
      let ran := e.runInstruction c
      let drawn := ran.2.drawInstruction ran.1 line
      e.acceptances c ≤ 1 ∧ drawn.2.length = line.length + 2 * ran.1 ∧
        8 ≤ 2 * ran.1 ∧ 2 * ran.1 ≤ 84 ∧
        (∀ i < 2 * ran.1, (ShiftRegister.shiftOut ran.2.board.ula.lit i ran.2.board.ula.shift
          line).2.length < Scanline.capacity) ∧
        ((e.pass c line).line = drawn.2 ∨ (e.pass c line).line.hasSync)) ∧
    ∀ stop : ℕ → Bool, ∃ k ≤ 500,
      let after i := (afterPass c)^[i] (e.beginLine line)
      let left i := stop i ∨ 0 < i ∧ ((after i).2.hasSync ∨ limit c ≤ (after i).2.length)
      left k ∧ (∀ i < k, ¬left i) ∧
        ∀ stopped, (∀ i, stop i = stopped) → e.scan c stopped line = endScan
          ⟨∑ i ∈ Finset.range k, passTime c (after i), (after k).1, (after k).2⟩ := by
  constructor
  · intro hshort ran drawn
    obtain ⟨t, e', -, -, hrun, hlow, hhigh, -⟩ := e.runInstruction_effect c
    have htime : ran.1 = t := congrArg Prod.fst hrun
    have hcapacity : Scanline.capacity = 4096 := rfl
    have hcutoff : Scanline.cutoff = 4000 := rfl
    refine ⟨e.acceptances_le c, ?_, by omega, by omega, ?_, e.line_pass c line⟩
    · exact ran.2.length_drawInstruction line ran.1 (by omega)
    · intro i hi
      obtain ⟨-, -, hsent⟩ := ShiftRegister.shiftOut_snd ran.2.board.ula.lit i
        ran.2.board.ula.shift line
      rw [hsent]
      omega
  · intro stop
    let after i := (afterPass c)^[i] (e.beginLine line)
    let left i := stop i ∨ 0 < i ∧ ((after i).2.hasSync ∨ limit c ≤ (after i).2.length)
    have hdone_iff (i : ℕ) : lineDone c (after i).2 ↔
        (after i).2.hasSync ∨ limit c ≤ (after i).2.length := by
      rw [lineDone, Bool.or_eq_true, decide_eq_true_eq, or_comm]
    obtain ⟨last, hlast, hdone⟩ := exists_lineDone c (e.beginLine line)
    have hleft : left (last + 1) := .inr ⟨Nat.succ_pos last, (hdone_iff _).mp hdone⟩
    have hexists : ∃ i, left i := ⟨last + 1, hleft⟩
    -- the call ends at the first turn that leaves the loop
    classical
    refine ⟨Nat.find hexists, ?_, Nat.find_spec hexists, fun i hi => Nat.find_min hexists hi, ?_⟩
    · exact Nat.le_trans (Nat.find_min' hexists hleft) hlast
    · intro stopped hstop
      have hfound := Nat.find_spec hexists
      have hmin : ∀ i < Nat.find hexists, ¬left i := fun i hi => Nat.find_min hexists hi
      have hle := Nat.find_min' hexists hleft
      generalize Nat.find hexists = k at hfound hmin hle ⊢
      rw [scan_eq]
      cases stopped with
      | true =>
        have hzero : k = 0 := by
          by_contra hpos
          exact hmin 0 (Nat.pos_of_ne_zero hpos) (.inl (hstop 0))
        subst hzero
        rfl
      | false =>
        obtain ⟨hpos, hended⟩ := hfound.resolve_left (by simp [hstop])
        obtain ⟨k, rfl⟩ := Nat.exists_eq_succ_of_ne_zero (Nat.ne_of_gt hpos)
        have hnot : ∀ i < k, lineDone c (after (i + 1)).2 = false := by
          intro i hi
          by_contra hearly
          have hsome := (hdone_iff (i + 1)).mp (by simpa using hearly)
          exact hmin (i + 1) (Nat.succ_lt_succ hi) (.inr ⟨Nat.succ_pos i, hsome⟩)
        have hbound : k < Scanline.cutoff := by
          simp only [Scanline.cutoff]
          omega
        rw [if_neg Bool.false_ne_true,
          passes_eq_iterate 0 hbound ((hdone_iff _).mpr hended) hnot, Nat.zero_add]

/-- A processor at one of the longest instructions, with the longest interrupt to come after it. -/
def busiest : Engine where
  cpu := { regs := { iff1 := true, im := 2 } }
  board := (Board.ofConfig {}).mapMemory (·.load 0 [0xDD, 0x34, 0x00])

theorem busiest_bounded :
    let ran := busiest.runInstruction {}
    ({} : Scanline).length < Scanline.cutoff ∧ busiest.acceptances {} = 1 ∧
      (ran.2.drawInstruction ran.1 {}).2.length = 84 := by
  intro ran
  have hshort : ({} : Scanline).length < Scanline.cutoff := by decide
  have htime : ran.1 = 42 := by decide +kernel
  obtain ⟨-, hlength, -⟩ := (loop_bounded {} busiest {}).1 hshort
  rw [htime] at hlength
  exact ⟨hshort, by decide +kernel, hlength⟩

end Engine
end Zx81
