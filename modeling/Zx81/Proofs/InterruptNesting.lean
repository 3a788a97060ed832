import Mathlib.Data.Nat.Init
import Zx81.Bus.Flat
import Zx81.Proofs.InterruptState

namespace Zx81.Z80

section Course

variable {event : ℕ → InterruptEvent} {s : ℕ → Interrupts}
  (hrun : ∀ k, s (k + 1) = (event k).act (s k))

/-- The second flip-flop is set where the first is. -/
def Interrupts.Ordered (s : Interrupts) : Prop := s.iff1 → s.iff2

theorem InterruptEvent.ordered_act (event : InterruptEvent) {s : Interrupts} (h : s.Ordered) :
    (event.act s).Ordered := by
  cases event with
  | enable | restore => exact fun h => h
  | other | refuse => exact h
  | disable | accept | nmi | reset => exact fun h => nomatch h

include hrun

theorem ordered_of_reset {i k : ℕ} (hi : event i = .reset) (hk : i < k) : (s k).Ordered := by
  induction k, hk using Nat.le_induction with
  | base =>
    rw [hrun, hi]
    exact fun h => nomatch h
  | succ k _ ih =>
    rw [hrun]
    exact (event k).ordered_act ih

/-- What has to happen before the next interrupt is accepted: interrupts are enabled, and then a
step runs. -/
def Rearming (event : ℕ → InterruptEvent) (i k : ℕ) (s : Interrupts) : Prop :=
  (s.iff1 = false ∧ s.iff2 = false) ∨
    ∃ m, i < m ∧ m < k ∧ event m = .enable ∧ (s.holdOff ∨ ∃ l, m < l ∧ l < k ∧ (event l).isStep)

omit hrun in
theorem Rearming.act {i k : ℕ} {s : Interrupts} (h : Rearming event i k s) (hk : i < k) :
    Rearming event i (k + 1) ((event k).act s) := by
  have hkeep {t : Interrupts} (ht : t.holdOff = s.holdOff) :
      (∃ m, i < m ∧ m < k ∧ event m = .enable ∧
        (s.holdOff ∨ ∃ l, m < l ∧ l < k ∧ (event l).isStep)) → Rearming event i (k + 1) t := by
    rintro ⟨m, him, hmk, hm, hheld | ⟨l, hml, hlk, hl⟩⟩
    · exact .inr ⟨m, him, by omega, hm, .inl (ht.trans hheld)⟩
    · exact .inr ⟨m, him, by omega, hm, .inr ⟨l, hml, by omega, hl⟩⟩
  have hstep {t : Interrupts} (hk : (event k).isStep) :
      (∃ m, i < m ∧ m < k ∧ event m = .enable ∧
        (s.holdOff ∨ ∃ l, m < l ∧ l < k ∧ (event l).isStep)) → Rearming event i (k + 1) t := by
    rintro ⟨m, him, hmk, hm, -⟩
    exact .inr ⟨m, him, by omega, hm, .inr ⟨k, hmk, by omega, hk⟩⟩
  cases hevent : event k with
  | enable => exact .inr ⟨k, hk, by omega, hevent, .inl rfl⟩
  | disable | accept | reset => exact .inl ⟨rfl, rfl⟩
  | restore =>
    rcases h with ⟨-, hsecond⟩ | hlater
    · exact .inl ⟨hsecond, hsecond⟩
    · exact hstep (by rw [hevent]; rfl) hlater
  | other =>
    rcases h with hoff | hlater
    · exact .inl hoff
    · exact hstep (by rw [hevent]; rfl) hlater
  | refuse =>
    rcases h with hoff | hlater
    · exact .inl hoff
    · exact hkeep rfl hlater
  | nmi =>
    rcases h with ⟨-, hsecond⟩ | hlater
    · exact .inl ⟨rfl, hsecond⟩
    · exact hkeep rfl hlater

theorem rearming_of_accept {i k : ℕ} (hi : event i = .accept) (hk : i < k) :
    Rearming event i k (s k) := by
  induction k, hk using Nat.le_induction with
  | base =>
    rw [hrun, hi]
    exact .inl ⟨rfl, rfl⟩
  | succ k hk ih =>
    rw [hrun]
    exact ih.act hk

/-- The second flip-flop keeps what it was until one of four events. -/
theorem iff2_eq {i k : ℕ} (hk : i ≤ k)
    (h : ∀ j, i ≤ j → j < k → event j ∉ [.enable, .disable, .accept, .reset]) :
    (s k).iff2 = (s i).iff2 := by
  induction k, hk using Nat.le_induction with
  | base => rfl
  | succ k hk ih =>
    have hkept := ih fun j hij hjk => h j hij (by omega)
    have hnot := h k hk (by omega)
    rw [hrun, ← hkept]
    cases hevent : event k with
    | restore | other | refuse | nmi => rfl
    | enable | disable | accept | reset =>
      rw [hevent] at hnot
      exact absurd hnot (by decide)

end Course

namespace Cpu

variable {σ : Type} [Bus σ]

/-- The processor and its bus after the first `k` stimuli. -/
def after (s : Cpu × σ) (stimulus : ℕ → Stimulus) : ℕ → Cpu × σ
  | 0 => s
  | k + 1 => react (after s stimulus k) (stimulus k)

theorem le_tstates_interrupt (cpu : Cpu) (bus : σ) (h : cpu.accepts) :
    13 ≤ (cpu.interrupt bus).tstates := by
  obtain ⟨cs, hcs, hclock⟩ := Built.acceptInterrupt.runs ⟨cpu.regs, 0, cpu.holdOff, bus⟩
  have hshape : ∀ shape ∈ interruptShapes, 13 ≤ shape.tstates := by decide
  have hasked := hshape _ hcs
  have hspent := BusCycle.le_runAll cs (0, bus)
  have hrun : (cpu.interrupt bus).tstates = (BusCycle.runAll cs (0, bus)).1 := by
    rw [interrupt, if_pos h, run_eq_settle]
    exact congrArg Prod.fst hclock
  omega

/-- Interrupts over a run of steps, maskable and non-maskable interrupts and resets, from any
state. From a reset on, IFF2 is set where IFF1 is. Between two interrupts that are accepted,
interrupts have been enabled, and another step has run since. A non-maskable interrupt leaves IFF2
as it is, and a return from its handler sets IFF1 to that unless interrupts have been enabled,
disabled, accepted or reset since. An accepted interrupt spends 13 T-states or more; one that is
not accepted changes nothing, spends no T-state and makes no cycle on the bus. -/
theorem no_nesting (start : Cpu × σ) (stimulus : ℕ → Stimulus) :
    let s := after start stimulus
    let event k := Cpu.event (s k) (stimulus k)
    (∀ i k, i < k → stimulus i = .reset → (s k).1.regs.iff1 → (s k).1.regs.iff2) ∧
    (∀ i j, i < j → event i = .accept → event j = .accept →
      ∃ k l, i < k ∧ k < l ∧ l < j ∧ event k = .enable ∧ (event l).isStep) ∧
    (∀ i haltWait, stimulus i = .request (.nmi haltWait) →
      (s (i + 1)).1.regs.iff2 = (s i).1.regs.iff2 ∧
      ∀ j, i < j → event j = .restore →
        (∀ k, i < k → k < j → event k ∉ [.enable, .disable, .accept, .reset]) →
        (s (j + 1)).1.regs.iff1 = (s i).1.regs.iff2) ∧
    (∀ k, stimulus k = .request .interrupt →
      let called := (s k).1.interrupt (s k).2
      event k = .accept ∧ 13 ≤ called.tstates ∨
        called = ⟨(s k).1, (s k).2, 0⟩ ∧
          ((s k).1.interrupt (Traced.mk (s k).2 #[])).bus.events = #[]) := by
  intro s event
  let state k := (s k).1.interrupts
  have hrun (k : ℕ) : state (k + 1) = (event k).act (state k) :=
    interrupts_react (s k) (stimulus k)
  refine ⟨?_, ?_, ?_, ?_⟩
  · intro i k hk hi
    have hreset : event i = .reset := by simp only [event, hi, Cpu.event]
    exact ordered_of_reset hrun hreset hk
  · intro i j hij hi hj
    have hopen := accepts_of_event hj
    simp only [accepts, Bool.and_eq_true, Bool.not_eq_true'] at hopen
    rcases rearming_of_accept hrun hi hij with ⟨hshut, -⟩ | ⟨k, hik, -, hk, hheld | hstep⟩
    · exact absurd (hopen.1.symm.trans hshut) (by decide)
    · exact absurd (hheld.symm.trans hopen.2) (by decide)
    · obtain ⟨l, hkl, hlj, hl⟩ := hstep
      exact ⟨k, l, hik, hkl, hlj, hk, hl⟩
  · intro i haltWait hi
    have hnmi : event i = .nmi := by simp only [event, hi, Cpu.event]
    have hnmi_kept : (state (i + 1)).iff2 = (state i).iff2 := by rw [hrun, hnmi]; rfl
    refine ⟨hnmi_kept, ?_⟩
    intro j hij hj hnone
    have hkept := iff2_eq hrun (Nat.succ_le_of_lt hij) fun k hk => hnone k (by omega)
    have hrestored : (state (j + 1)).iff1 = (state j).iff2 := by rw [hrun, hj]; rfl
    exact hrestored.trans (hkept.trans hnmi_kept)
  · intro k hk called
    by_cases h : (s k).1.accepts
    · have haccept : event k = .accept := by simp only [event, hk, Cpu.event, if_pos h]
      exact .inl ⟨haccept, le_tstates_interrupt _ _ h⟩
    · right
      have htraced : (s k).1.interrupt (Traced.mk (s k).2 #[]) = ⟨(s k).1, ⟨(s k).2, #[]⟩, 0⟩ :=
        if_neg h
      refine ⟨if_neg h, ?_⟩
      rw [htraced]

/-- A program that enables interrupts, and a handler that does so too. -/
def handled : Cpu × FlatBus :=
  ({ regs := { sp := 0x80 } },
    { ram := (Ram.zero.load 0 [0xFB, 0x00]).load 0x38 [0xFB, 0x00] })

/-- Two interrupts that are accepted, and one between them that comes too early. -/
def calls (k : ℕ) : Stimulus :=
  [.request .step, .request .step, .request .interrupt, .request .step, .request .interrupt,
    .request .step, .request .interrupt].getD k .reset

theorem rearmed_between :
    let event k := Cpu.event (after handled calls k) (calls k)
    event 2 = .accept ∧ event 4 = .refuse ∧ event 6 = .accept ∧
      ∃ k l, 2 < k ∧ k < l ∧ l < 6 ∧ event k = .enable ∧ (event l).isStep := by
  intro event
  have hfirst : event 2 = .accept := by decide +kernel
  have hsecond : event 6 = .accept := by decide +kernel
  refine ⟨hfirst, by decide +kernel, hsecond, ?_⟩
  exact (no_nesting handled calls).2.1 2 6 (by decide) hfirst hsecond

end Cpu
end Zx81.Z80
