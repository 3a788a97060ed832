import Zx81.Proofs.Turn

namespace Zx81

open Video (Ula Scanline)

namespace Video.Ula

variable {u : Ula} {line : Scanline}

/-- The pulse after a turn that begins without a sync. -/
theorem pulse_close_draw (t n : Nat) (hsync : line.sync = .absent) {line' : Scanline}
    (hclose : line' = (close n (u.draw t line).1 (u.draw t line).2).2) :
    (line'.sync = .vertical ↔ u.lightsUp ∧ 0 < line.syncLength) ∧
      (line'.sync = .vertical → line'.syncLength = line.syncLength) ∧
      (u.litAfter → line'.sync = .absent → line'.syncLength = line.syncLength) ∧
      (u.litAfter = false → line'.sync = .absent ∧
        line'.syncLength = min (line.syncLength + t) Scanline.longestSync) := by
  have hchip := draw_fst t u line
  obtain ⟨samples, hdrawn, -⟩ := draw_snd t u line
  have hlit : (u.draw t line).1.lit = u.litAfter := by rw [hchip]
  by_cases htimed : (u.draw t line).1.lit ∧ (u.draw t line).2.syncLength = 0
  · have hafter : u.litAfter := hlit ▸ htimed.1
    have hzero : line.syncLength = 0 := by
      have hpulse := htimed.2
      rwa [hdrawn, if_pos hafter] at hpulse
    have hdark : u.litAfter ≠ false := by simp [hafter]
    rcases close_snd n (u.draw t line).1 (u.draw t line).2 with hsame | hclosed
    · rw [hclose, hsame, hdrawn]
      simp [hsync, hzero, hafter]
    · rw [← hclose] at hclosed
      simp [hclosed, hzero, hdark]
  · obtain ⟨counter, borrow, hsame⟩ := close_of_pulse n htimed
    rw [hclose, hsame, hdrawn]
    cases hafter : u.litAfter with
    | true =>
      by_cases hup : u.lightsUp = true ∧ 0 < line.syncLength
      · simp [hup]
      · simp [hup, hsync]
    | false => simp [lightsUp, hafter, hsync]

theorem litAfter_of_nmiNext (h : u.nmi → u.lit) (hnmi : u.nmiNext) : u.litAfter := by
  cases hevent : u.event with
  | none =>
    simp only [nmiNext, litAfter, hevent] at hnmi ⊢
    exact h hnmi
  | some event =>
    cases event with
    | output port => simp [litAfter, hevent]
    | input port =>
      simp only [nmiNext, hevent] at hnmi
      simp [litAfter, hevent, hnmi, h hnmi]

/-- Only an output lights a picture. -/
theorem event_of_lightsUp (h : u.lightsUp) : ∃ port, u.event = some (.output port) := by
  obtain ⟨hdark, hlit⟩ : u.lit = false ∧ u.litAfter := by simpa [lightsUp] using h
  cases hevent : u.event with
  | none => simp [litAfter, hevent, hdark] at hlit
  | some event =>
    cases event with
    | output port => exact ⟨port, rfl⟩
    | input port => simp [litAfter, hevent, hdark] at hlit

/-- Only an input darkens a picture. -/
theorem event_of_darkens (hlit : u.lit) (h : u.litAfter = false) :
    ∃ port, u.event = some (.input port) := by
  cases hevent : u.event with
  | none => simp [litAfter, hevent, hlit] at h
  | some event =>
    cases event with
    | output port => simp [litAfter, hevent] at h
    | input port => exact ⟨port, rfl⟩

end Video.Ula

namespace Machine

def accesses (m : Machine) : List BusEvent := m.ready.engine.accesses

def Outputs (m : Machine) : Prop := ∃ port v, BusEvent.output port v ∈ m.accesses

/-- The next instruction reads an even port and switches the sync generator off. -/
def Darkens (m : Machine) : Prop :=
  (∃ port v, port.toNat % 2 = 0 ∧ BusEvent.input port v ∈ m.accesses) ∧
    m.ula.lit ∧ m.turn.ula.lit = false

/-- The video chip `u` as the next instruction is drawn: `t` T-states for the instruction, `n` for
an interrupt at the end of the line. -/
structure Drawing (m : Machine) (t n : Nat) (u : Ula) : Prop where
  lit : u.lit = m.ula.lit
  nmi : u.nmi = m.ula.nmi
  litAfter : m.turn.ula.lit = u.litAfter
  nmiNext : m.turn.ula.nmi = u.nmiNext
  output : Outputs m ↔ ∃ port, u.event = some (.output port)
  input : ∀ {port}, u.event = some (.input port) →
    ∃ port v, port.toNat % 2 = 0 ∧ BusEvent.input port v ∈ m.accesses
  line : m.turn.line = (Ula.close n (u.draw t m.ready.line).1 (u.draw t m.ready.line).2).2
  time : m.turnTime = t + n
  nmiTime : n ≠ 0 → u.nmiNext

theorem exists_drawing (m : Machine) : ∃ t n u, Drawing m t n u := by
  obtain ⟨t, n, u, hturned⟩ := m.ready.engine.pass_effect m.ready.config m.ready.line
  obtain ⟨-, -, hlit, hnmi⟩ := m.ready_pulse
  obtain ⟨shift, event, hchip⟩ := hturned.chip
  have hdrawn := Ula.draw_fst t u m.ready.line
  have hpass : m.ready.pass.ula = (Ula.close n (u.draw t m.ready.line).1
      (u.draw t m.ready.line).2).1 := congrArg Prod.fst hturned.drawn
  obtain ⟨hlit', hnmi'⟩ := Ula.close_generators n (u.draw t m.ready.line).1
    (u.draw t m.ready.line).2
  obtain ⟨hlitTurn, hnmiTurn⟩ := m.generators_turn
  refine ⟨t, n, u,
    { lit := ?_
      nmi := ?_
      litAfter := by rw [hlitTurn, hpass, hlit', hdrawn]
      nmiNext := by rw [hnmiTurn, hpass, hnmi', hdrawn]
      output := ?_
      input := fun hevent => ?_
      line := m.line_turn.trans (congrArg Prod.snd hturned.drawn)
      time := hturned.tstates
      nmiTime := fun hsome => ?_ }⟩
  · rw [← hlit, hchip]
    rfl
  · rw [← hnmi, hchip]
    rfl
  · simp only [hturned.event, BusEvent.portEvent?_eq_output]
    constructor
    · rintro ⟨port, v, hmem⟩
      exact ⟨port, _, hmem, v, rfl⟩
    · rintro ⟨port, _, hmem, v, rfl⟩
      exact ⟨port, v, hmem⟩
  · obtain ⟨access, hmem, haccess⟩ := (hturned.event _).mp hevent
    obtain ⟨heven, v, rfl⟩ := BusEvent.portEvent?_eq_input.mp haccess
    exact ⟨_, v, heven, hmem⟩
  · have hon := (hturned.nmi hsome).2
    rwa [hdrawn] at hon

/-- Between two instructions: interrupts at the end of lines are on only in a lit picture, and no
pulse is open in it. -/
structure Steady (m : Machine) : Prop where
  nmi : m.ula.nmi → m.ula.lit
  lit : m.ula.lit → m.pulse = 0

section Step

variable {m : Machine}

theorem Steady.nmi_turn (h : Steady m) : m.turn.ula.nmi → m.turn.ula.lit := by
  obtain ⟨t, n, u, hd⟩ := m.exists_drawing
  intro hon
  rw [hd.nmiNext] at hon
  rw [hd.litAfter]
  apply Ula.litAfter_of_nmiNext _ hon
  rw [hd.nmi, hd.lit]
  exact h.nmi

/-- A turn ends a pulse if it writes to a port. -/
theorem Steady.vertical_turn (h : Steady m) :
    (m.turn.line.sync = .vertical ↔ Outputs m ∧ 0 < m.pulse) ∧
      (m.turn.line.sync = .vertical → m.turn.line.syncLength = m.pulse) := by
  obtain ⟨t, n, u, hd⟩ := m.exists_drawing
  obtain ⟨hpulse, hsync, -⟩ := m.ready_pulse
  obtain ⟨hvertical, hended, -⟩ := Ula.pulse_close_draw t n hsync hd.line
  rw [hpulse] at hvertical hended
  refine ⟨hvertical.trans ?_, hended⟩
  constructor
  · rintro ⟨hup, hopen⟩
    exact ⟨hd.output.mpr (Ula.event_of_lightsUp hup), hopen⟩
  · rintro ⟨hout, hopen⟩
    obtain ⟨port, hevent⟩ := hd.output.mp hout
    have hdark : m.ula.lit = false := by
      by_contra hlight
      have hclosed := h.lit (by simpa using hlight)
      omega
    exact ⟨by simp [Ula.lightsUp, Ula.litAfter, hevent, hd.lit, hdark], hopen⟩

theorem lit_of_outputs (h : Outputs m) : m.turn.ula.lit := by
  obtain ⟨t, n, u, hd⟩ := m.exists_drawing
  obtain ⟨port, hevent⟩ := hd.output.mp h
  rw [hd.litAfter, Ula.litAfter, hevent]

theorem outputs_of_lit (hdark : m.ula.lit = false) (hlit : m.turn.ula.lit) : Outputs m := by
  obtain ⟨t, n, u, hd⟩ := m.exists_drawing
  rw [hd.litAfter] at hlit
  refine hd.output.mpr (Ula.event_of_lightsUp ?_)
  simp [Ula.lightsUp, hd.lit, hdark, hlit]

theorem darkens_of_lit (hlit : m.ula.lit) (hdark : m.turn.ula.lit = false) : Darkens m := by
  obtain ⟨t, n, u, hd⟩ := m.exists_drawing
  refine ⟨?_, hlit, hdark⟩
  rw [hd.litAfter] at hdark
  obtain ⟨port, hevent⟩ := Ula.event_of_darkens (hd.lit.trans hlit) hdark
  exact hd.input hevent

/-- A turn that leaves the picture dark counts as pulse. -/
theorem Steady.dark_turn (h : Steady m) (hdark : m.turn.ula.lit = false) :
    m.turn.line.sync = .absent ∧
      m.turn.pulse = min (m.pulse + m.turnTime) Scanline.longestSync := by
  obtain ⟨t, n, u, hd⟩ := m.exists_drawing
  obtain ⟨hpulse, hsync, -⟩ := m.ready_pulse
  have hquiet : n = 0 := by
    by_contra hsome
    have hon : m.turn.ula.nmi := hd.nmiNext.trans (hd.nmiTime hsome)
    simp [h.nmi_turn hon] at hdark
  obtain ⟨-, -, -, hcounted⟩ := Ula.pulse_close_draw t n hsync hd.line
  rw [hd.litAfter] at hdark
  obtain ⟨habsent, hlength⟩ := hcounted hdark
  refine ⟨habsent, ?_⟩
  rw [pulse, if_neg (by simp [Scanline.hasSync, habsent]), hlength, hpulse, hd.time, hquiet,
    Nat.add_zero]

theorem Steady.lit_turn (h : Steady m) (hlit : m.turn.ula.lit) : m.turn.pulse = 0 := by
  obtain ⟨t, n, u, hd⟩ := m.exists_drawing
  obtain ⟨hpulse, hsync, -⟩ := m.ready_pulse
  obtain ⟨-, -, hkept, -⟩ := Ula.pulse_close_draw t n hsync hd.line
  cases hs : m.turn.line.hasSync with
  | true => rw [Machine.pulse, if_pos hs]
  | false =>
    have habsent : m.turn.line.sync = .absent := by simpa [Scanline.hasSync] using hs
    rw [Machine.pulse, if_neg (by simp [hs]), hkept (hd.litAfter ▸ hlit) habsent, hpulse]
    -- a pulse that was open is ended by the output that lights the picture
    by_contra hopen
    have hdark : m.ula.lit = false := by
      by_contra hlight
      exact hopen (h.lit (by simpa using hlight))
    have hvertical := h.vertical_turn.1.mpr ⟨outputs_of_lit hdark hlit, Nat.pos_of_ne_zero hopen⟩
    rw [habsent] at hvertical
    cases hvertical

theorem Steady.turn (h : Steady m) : Steady m.turn := ⟨h.nmi_turn, h.lit_turn⟩

end Step

/-- Changes from outside that touch neither the video chip nor the line. -/
structure Undisturbed (m m' : Machine) : Prop where
  config : m'.config = m.config
  ula : m'.ula = m.ula
  line : m'.line = m.line
  stopped : m'.stopped = m.stopped

/-- A run of calls for a line, as the machines before each instruction. Between two calls the rest
of the machine may be changed from outside. -/
structure Run (c : Config) (m : ℕ → Machine) : Prop where
  powerOn : PowerOn c (m 0)
  inCall : ∀ k, (m k).turn.lineDone = false → m (k + 1) = (m k).turn
  between : ∀ k, (m k).turn.lineDone → Undisturbed (m k).turn (m (k + 1))

namespace Run

variable {c : Config} {m : ℕ → Machine} {i j k : ℕ}

theorem undisturbed (h : Run c m) (k : ℕ) : Undisturbed (m k).turn (m (k + 1)) := by
  cases hdone : (m k).turn.lineDone with
  | true => exact h.between k hdone
  | false =>
    rw [h.inCall k hdone]
    exact ⟨rfl, rfl, rfl, rfl⟩

theorem lit_succ (h : Run c m) (k : ℕ) : (m (k + 1)).ula.lit = (m k).turn.ula.lit :=
  congrArg Ula.lit (h.undisturbed k).ula

theorem pulse_succ (h : Run c m) (k : ℕ) : (m (k + 1)).pulse = (m k).turn.pulse := by
  rw [pulse, pulse, (h.undisturbed k).line]

theorem steady (h : Run c m) (k : ℕ) : Steady (m k) := by
  induction k with
  | zero =>
    have hchip := h.powerOn.ula
    constructor
    · intro hon
      simp [hchip] at hon
    · intro hlit
      simp [hchip] at hlit
  | succ k ih =>
    have hturn := ih.turn
    constructor
    · rw [(h.undisturbed k).ula]
      exact hturn.nmi
    · rw [h.lit_succ, h.pulse_succ]
      exact hturn.lit

/-- After an instruction that darkens the picture the pulse grows until the next output. -/
theorem pulse_of_darkens (h : Run c m) (hi : Darkens (m i)) (hij : i < j)
    (hquiet : ∀ k, i < k → k < j → ¬Outputs (m k)) :
    (m j).ula.lit = false ∧
      (m j).pulse = min (∑ k ∈ Finset.Ico i j, (m k).turnTime) Scanline.longestSync := by
  induction j, hij using Nat.le_induction with
  | base =>
    obtain ⟨-, hlit, hdark⟩ := hi
    rw [h.lit_succ, h.pulse_succ, ((h.steady i).dark_turn hdark).2, (h.steady i).lit hlit]
    exact ⟨hdark, by simp⟩
  | succ j hij ih =>
    obtain ⟨hdark, hpulse⟩ := ih fun k hik hkj => hquiet k hik (by omega)
    have hstill : (m j).turn.ula.lit = false := by
      by_contra hlit
      exact hquiet j hij (by omega) (outputs_of_lit hdark (by simpa using hlit))
    rw [h.lit_succ, h.pulse_succ, ((h.steady j).dark_turn hstill).2, hpulse]
    refine ⟨hstill, ?_⟩
    rw [Finset.sum_Ico_succ_top (by omega)]
    omega

/-- In a dark picture the last to touch the sync generator darkened it, or nothing has lit it. -/
theorem dark_cases (h : Run c m) (hdark : (m j).ula.lit = false) :
    (∃ i < j, Darkens (m i) ∧ ∀ k, i < k → k < j → ¬Outputs (m k)) ∨
      ∀ k < j, ¬Outputs (m k) := by
  induction j with
  | zero => exact .inr fun k hk => absurd hk (Nat.not_lt_zero k)
  | succ j ih =>
    rw [h.lit_succ] at hdark
    have hquiet : ¬Outputs (m j) := fun hout => by simp [lit_of_outputs hout] at hdark
    have hextend {k : ℕ} (hk : k < j + 1) : k < j ∨ k = j := by omega
    cases hlit : (m j).ula.lit with
    | true =>
      left
      refine ⟨j, by omega, darkens_of_lit hlit hdark, ?_⟩
      intro k hjk hk
      omega
    | false =>
      rcases ih hlit with ⟨i, hij, hi, hbetween⟩ | hnever
      · left
        refine ⟨i, by omega, hi, ?_⟩
        intro k hik hk
        rcases hextend hk with hkj | rfl
        · exact hbetween k hik hkj
        · exact hquiet
      · right
        intro k hk
        rcases hextend hk with hkj | rfl
        · exact hnever k hkj
        · exact hquiet

theorem running (h : Run c m) (k : ℕ) : (m k).stopped = false := by
  induction k with
  | zero => exact h.powerOn.running
  | succ k ih => rw [(h.undisturbed k).stopped, stopped_turn, ih]

theorem atCall (h : Run c m) (hk : k = 0 ∨ (m (k - 1)).turn.lineDone) : AtCall (m k) := by
  refine ⟨h.running k, ?_⟩
  cases k with
  | zero => exact .inl h.powerOn.line
  | succ k =>
    have hdone := hk.resolve_left (Nat.succ_ne_zero k)
    have hsame := h.undisturbed k
    right
    rwa [lineDone, hsame.config, hsame.line]

/-- The instructions of a run from the beginning of a call are those of the call. -/
theorem call (h : Run c m) (hk : k = 0 ∨ (m (k - 1)).turn.lineDone) :
    ∃ n, (m k).runLine.2 = (m (k + n)).turn ∧
      (m k).runLine.1.sync = (m (k + n)).turn.line.sync ∧
      (m k).runLine.1.tstates = ∑ i ∈ Finset.Ico k (k + n + 1), (m i).turnTime := by
  obtain ⟨n, hmachine, htime, hsync, -, hmid⟩ := runLine_eq_turns (h.atCall hk)
  have hturns : ∀ i ≤ n, m (k + i) = turn^[i] (m k) := by
    intro i hi
    induction i with
    | zero => rfl
    | succ i ih =>
      have hprev := ih (by omega)
      have hnot := hmid i (by omega)
      rw [Function.iterate_succ_apply', ← hprev] at hnot
      rw [Function.iterate_succ_apply', ← hprev]
      exact h.inCall (k + i) hnot
  have hlast : (m (k + n)).turn = turn^[n + 1] (m k) := by
    rw [hturns n (Nat.le_refl n), Function.iterate_succ_apply']
  refine ⟨n, by rw [hmachine, hlast], by rw [hsync, hlast], ?_⟩
  rw [htime, Finset.sum_Ico_eq_sum_range, Nat.add_assoc, Nat.add_sub_cancel_left]
  apply Finset.sum_congr rfl
  intro i hi
  rw [hturns i (by simp at hi; omega)]

end Run

/-- Every vertical pulse is reported once, with its exact length. In every run of calls for a line
from power-on, interrupts at the end of lines are on only in a lit picture. When an instruction
darkens the picture, no line ends with a sync until the next output; the line that this output
ends reports as pulse the T-states of all instructions from the first on, maskable interrupts
included. No other line but the first after power-on reports a vertical sync. -/
theorem vertical_pulses {c : Config} {m : ℕ → Machine} (h : Run c m) :
    (∀ k, (m k).ula.nmi → (m k).ula.lit) ∧
    (∀ i j, i < j → Darkens (m i) → Outputs (m j) → (∀ k, i < k → k < j → ¬Outputs (m k)) →
      (∀ k, i ≤ k → k < j → (m k).turn.line.sync = .absent) ∧
        (m j).turn.line.sync = .vertical ∧
        (m j).turn.line.syncLength = min (∑ k ∈ Finset.Ico i j, (m k).turnTime) 0xFFFFFFFF) ∧
    (∀ j, (m j).turn.line.sync = .vertical → Outputs (m j) ∧
      ((∃ i < j, Darkens (m i) ∧ ∀ k, i < k → k < j → ¬Outputs (m k)) ∨
        ∀ k < j, ¬Outputs (m k))) ∧
    ∀ k, (k = 0 ∨ (m (k - 1)).turn.lineDone) →
      ∃ n, (m k).runLine.2 = (m (k + n)).turn ∧
        (m k).runLine.1.sync = (m (k + n)).turn.line.sync ∧
        (m k).runLine.1.tstates = ∑ i ∈ Finset.Ico k (k + n + 1), (m i).turnTime := by
  refine ⟨?_, ?_, ?_, ?_⟩
  · intro k
    exact (h.steady k).nmi
  · intro i j hij hi hout hquiet
    constructor
    · intro k hik hkj
      have hdark : (m k).turn.ula.lit = false := by
        rw [← h.lit_succ]
        exact (h.pulse_of_darkens hi (by omega) fun k' hik' hk' => hquiet k' hik' (by omega)).1
      exact ((h.steady k).dark_turn hdark).1
    · obtain ⟨-, hpulse⟩ := h.pulse_of_darkens hi hij hquiet
      have hpos := (m i).turnTime_pos
      have hopen : 0 < (m j).pulse := by
        rw [hpulse, Finset.sum_eq_sum_Ico_succ_bot hij, Scanline.longestSync]
        omega
      obtain ⟨hiff, hlength⟩ := (h.steady j).vertical_turn
      have hvertical := hiff.mpr ⟨hout, hopen⟩
      exact ⟨hvertical, (hlength hvertical).trans hpulse⟩
  · intro j hvertical
    obtain ⟨hout, hopen⟩ := (h.steady j).vertical_turn.1.mp hvertical
    refine ⟨hout, ?_⟩
    apply h.dark_cases
    by_contra hlit
    have hclosed := (h.steady j).lit (by simpa using hlit)
    omega
  · intro k hk
    exact h.call hk

/-- A program that lights the picture, darkens it and lights it again. -/
def onePulse : Machine := (ofConfig {}).load 0 [0xD3, 0xFF, 0xDB, 0xFE, 0x00, 0xD3, 0xFF]

theorem onePulse_reported :
    Run {} (fun k => turn^[k] onePulse) ∧ Darkens (turn^[1] onePulse) ∧
      Outputs (turn^[3] onePulse) ∧ (turn^[3] onePulse).turn.line.sync = .vertical ∧
      (turn^[3] onePulse).turn.line.syncLength =
        min (∑ k ∈ Finset.Ico 1 3, (turn^[k] onePulse).turnTime) 0xFFFFFFFF := by
  have hrun : Run {} (fun k => turn^[k] onePulse) := by
    constructor
    · exact (powerOn_ofConfig _).load 0 _
    · intro k _
      exact Function.iterate_succ_apply' turn k onePulse
    · intro k _
      simp only [Function.iterate_succ_apply']
      exact ⟨rfl, rfl, rfl, rfl⟩
  have hdarkens : Darkens (turn^[1] onePulse) :=
    ⟨⟨0x00FE, 0x7F, by decide, by decide +kernel⟩, by decide +kernel, by decide +kernel⟩
  have houtputs : Outputs (turn^[3] onePulse) := ⟨0x7FFF, 0x7F, by decide +kernel⟩
  have hquiet : ∀ k, 1 < k → k < 3 → ¬Outputs (turn^[k] onePulse) := by
    intro k hlow hhigh
    obtain rfl : k = 2 := by omega
    have haccesses : (turn^[2] onePulse).accesses =
        [.memoryWait 0x0004 0 4 0, .fetch 0x0004 0x0002 0x00] := by decide +kernel
    rintro ⟨port, v, hmem⟩
    rw [haccesses] at hmem
    simp at hmem
  have hpulse := (vertical_pulses hrun).2.1 1 3 (by decide) hdarkens houtputs hquiet
  exact ⟨hrun, hdarkens, houtputs, hpulse.2.1, hpulse.2.2⟩

end Machine
end Zx81
