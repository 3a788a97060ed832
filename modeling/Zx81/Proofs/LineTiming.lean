import Zx81.Proofs.Turn

namespace Zx81

open Video (Ula Scanline Sync)

/-- The place in a line of `L` T-states, `due` of which are left. In a pulse of the program's own
there is none; after a line that the timer ended, `due` is what the instruction left of it. -/
structure Phase (L : Nat) (due : Int) (u : Ula) (line : Scanline) : Prop where
  lineLength : u.lineLength = L
  flowing : line.sync = .absent → line.syncLength = 0 →
    u.counter.toInt = due ∧ 0 < due ∧ (line.length : Int) = 2 * (L - due)
  horizontal : line.sync = .horizontal →
    u.counter.toInt = due + L ∧ u.counter.toInt = L - u.borrow ∧ u.borrow < 64 ∧
      line.length = 2 * L
  vertical : line.sync = .vertical → u.counter.toInt = L ∧ u.borrow = 0

namespace Phase

variable {L : Nat} {due : Int} {u : Ula} {line : Scanline}

/-- The video chip after a line: a vertical sync starts the timer again. -/
def restarted (u : Ula) (line : Scanline) : Ula :=
  if line.sync = .vertical then u.restartLine else u

theorem of_pulse (hL : L ≤ 2000) (hlength : u.lineLength = L) (hpulse : 0 < line.syncLength)
    (hsync : line.sync ≠ .horizontal) : Phase L due (restarted u line) line := by
  by_cases hv : line.sync = .vertical
  · have hstart : (Int32.ofNat u.lineLength).toInt = L := by
      rw [hlength]
      exact Int32.toInt_ofNat_of_lt (by omega)
    rw [restarted, if_pos hv, Ula.restartLine]
    constructor
    · exact hlength
    · intro habsent
      simp [hv] at habsent
    · intro hh
      exact absurd hh hsync
    · intro _
      exact ⟨hstart, rfl⟩
  · rw [restarted, if_neg hv]
    constructor
    · exact hlength
    · intro _ hzero
      omega
    · intro hh
      exact absurd hh hsync
    · intro h
      exact absurd h hv

/-- The line while the timer runs and the picture is lit. -/
theorem drawn (hL : L ≤ 2000) (h : Phase L due u line) (hsync : line.sync = .absent)
    (hzero : line.syncLength = 0) {t : Nat} (ht : t ≤ 42) (hlit : u.litAfter) :
    (u.draw t line).1.counter.toInt = due - t ∧ (u.draw t line).1.lineLength = L ∧
      (u.draw t line).2.sync = .absent ∧ (u.draw t line).2.syncLength = 0 ∧
      ((u.draw t line).2.length : Int) = 2 * (L - (due - t)) := by
  obtain ⟨hcounter, hdue, hlength⟩ := h.flowing hsync hzero
  have hchip := Ula.draw_fst t u line
  obtain ⟨samples, hline, hsize⟩ := Ula.draw_snd t u line
  rw [hchip, hline]
  refine ⟨?_, h.lineLength, ?_, ?_, ?_⟩
  · rw [← hchip, Ula.counter_draw t u line (by omega) (by omega), hcounter]
  · simp [hzero, hsync]
  · simp [hlit, hzero]
  · change (samples.size : Int) = _
    simp only [Scanline.capacity] at hsize
    omega

/-- After an instruction in a dark picture, or after one in a pulse, there is a pulse. -/
theorem pulse_drawn (hsync : line.sync = .absent) {t : Nat} (ht : 0 < t)
    (h : ¬((u.draw t line).1.lit ∧ (u.draw t line).2.syncLength = 0)) :
    0 < (u.draw t line).2.syncLength ∧ (u.draw t line).2.sync ≠ .horizontal := by
  have hchip := Ula.draw_fst t u line
  obtain ⟨samples, hline, -⟩ := Ula.draw_snd t u line
  rw [hchip, hline] at h
  rw [hline]
  constructor
  · cases hlit : u.litAfter with
    | false =>
      simp only [Bool.false_eq_true, if_false, Scanline.longestSync]
      omega
    | true =>
      simp only [hlit, if_true, true_and] at h ⊢
      omega
  · simp only [hsync]
    split <;> simp

/-- The end of a turn, while the timer runs and the picture is lit. -/
theorem closed (hlow : 64 ≤ L) (hL : L ≤ 2000) (hlength : u.lineLength = L)
    (hsync : line.sync = .absent) (hzero : line.syncLength = 0) (hlit : u.lit)
    (hcounter : u.counter.toInt = due) (hsamples : (line.length : Int) = 2 * (L - due))
    (hdue : -42 < due) {n : Nat} (hn : n ≤ 14)
    (hnmi : n ≠ 0 → u.expired) :
    Phase L (due - n) (restarted (Ula.close n u line).1 (Ula.close n u line).2)
      (Ula.close n u line).2 := by
  cases hexpired : u.expired with
  | false =>
    have hnone : n = 0 := by
      by_contra hsome
      simp [hnmi hsome] at hexpired
    have hleft := Ula.expired_eq_false_iff.mp hexpired
    rw [Ula.close_of_running n hexpired, restarted, if_neg (by simp [hsync]), hnone]
    change Phase L (due - (0 : Nat)) u line
    constructor
    · exact hlength
    · intro _ _
      refine ⟨?_, ?_, ?_⟩ <;> omega
    · intro hh
      simp [hsync] at hh
    · intro hv
      simp [hsync] at hv
  | true =>
    have hover := Ula.expired_iff.mp hexpired
    obtain ⟨row, samples, hclose, hsize⟩ := Ula.close_of_timed n hexpired hlit hzero
    obtain ⟨hsame, hagain, hcarried⟩ :=
      Ula.close_timer n line hexpired (by omega) (by omega) (by omega)
    have hends : (Ula.close n u line).2 = ⟨samples, Video.shortestSync, .horizontal⟩ := by
      rw [hclose]
    rw [hends, restarted, if_neg (by simp)]
    constructor
    · rw [hsame, hlength]
    · intro habsent
      simp at habsent
    · intro _
      refine ⟨?_, ?_, ?_, ?_⟩
      · omega
      · omega
      · omega
      · change samples.size = 2 * L
        rw [hsize, hlength]
        exact Nat.min_eq_left (by omega)
    · intro hv
      simp at hv

/-- A turn moves the place in the line on by the time it takes. -/
theorem turn (hlow : 64 ≤ L) (hL : L ≤ 2000) (h : Phase L due u line)
    (hsync : line.sync = .absent) {t n : Nat} (ht : 4 ≤ t ∧ t ≤ 42) (hn : n ≤ 14)
    (hnmi : n ≠ 0 → (u.draw t line).1.expired) :
    let closed := Ula.close n (u.draw t line).1 (u.draw t line).2
    Phase L (due - (t + n : Nat)) (restarted closed.1 closed.2) closed.2 := by
  intro closed
  have hchip := Ula.draw_fst t u line
  by_cases htimed : (u.draw t line).1.lit ∧ (u.draw t line).2.syncLength = 0
  · have hlit : u.litAfter := by
      have hafter := htimed.1
      rwa [hchip] at hafter
    have hzero : line.syncLength = 0 := by
      obtain ⟨samples, hline, -⟩ := Ula.draw_snd t u line
      have hafter := htimed.2
      rwa [hline, if_pos hlit] at hafter
    obtain ⟨-, hdue, -⟩ := h.flowing hsync hzero
    obtain ⟨hcounter, hlength, habsent, hpulse, hsamples⟩ := h.drawn hL hsync hzero ht.2 hlit
    have hleft : due - (t + n : Nat) = due - t - n := by omega
    rw [hleft]
    exact Phase.closed hlow hL hlength habsent hpulse htimed.1 hcounter hsamples (by omega) hn hnmi
  · obtain ⟨hpulse, hsync'⟩ := pulse_drawn hsync (by omega) htimed
    obtain ⟨counter, borrow, heq⟩ := Ula.close_of_pulse n htimed
    have hlength : closed.1.lineLength = L := by
      simp only [closed, heq, hchip]
      exact h.lineLength
    have hline : closed.2 = (u.draw t line).2 := by simp only [closed, heq]
    rw [hline]
    exact of_pulse hL hlength hpulse hsync'

end Phase

namespace Machine

variable {L : Nat} {due : Int} {m : Machine}

theorem phase_turn (hlow : 64 ≤ L) (hL : L ≤ 2000) (h : Phase L due m.ready.ula m.ready.line)
    (hsync : m.ready.line.sync = .absent) :
    Phase L (due - m.turnTime) m.turn.ula m.turn.line := by
  obtain ⟨t, n, u, hturned⟩ := m.ready.engine.pass_effect m.ready.config m.ready.line
  obtain ⟨shift, event, hchip⟩ := hturned.chip
  have hu : Phase L due u m.ready.line := by
    rw [hchip]
    exact ⟨h.lineLength, h.flowing, h.horizontal, h.vertical⟩
  have hphase := hu.turn hlow hL hsync hturned.time hturned.nmiTime
    fun hsome => (hturned.nmi hsome).1
  have htime : m.turnTime = t + n := hturned.tstates
  have hdrawn : (m.ready.pass.ula, m.ready.pass.line) =
      Ula.close n (u.draw t m.ready.line).1 (u.draw t m.ready.line).2 := hturned.drawn
  rw [← hdrawn] at hphase
  rw [ula_turn, line_turn, htime]
  exact hphase

/-- While the timer runs, a line is not cut before it is over. -/
theorem lineDone_eq_false (hL : 64 ≤ L ∧ L ≤ 2000) (hmode : m.config.singleStep = false)
    (h : Phase L due m.ula m.line) (hsync : m.line.sync = .absent)
    (hzero : m.line.syncLength = 0) : m.lineDone = false := by
  obtain ⟨-, hdue, hlength⟩ := h.flowing hsync hzero
  have hshort : m.line.length < 4000 := by omega
  simp [lineDone, Engine.lineDone, Engine.limit, hmode, Scanline.cutoff, Scanline.hasSync, hsync,
    hshort]

/-- A call goes on with the line where the last one left the timer. -/
theorem phase_ready (hL : 64 ≤ L ∧ L ≤ 2000) (hcall : AtCall m)
    (hmode : m.config.singleStep = false) (h : Phase L due m.ula m.line) :
    Phase L m.ula.counter.toInt m.ready.ula m.ready.line ∧ m.ready.line.sync = .absent := by
  have hopen := m.openLine_eq
  rw [hcall.ready_eq]
  cases hsync : m.line.hasSync with
  | true =>
    rw [if_pos hsync] at hopen
    obtain ⟨hchip, -, habsent, hlength⟩ := hopen
    have hstart : m.ula.counter.toInt = L - m.ula.borrow ∧ m.ula.borrow < 64 := by
      cases hkind : m.line.sync with
      | absent => simp [Scanline.hasSync, hkind] at hsync
      | horizontal => exact ⟨(h.horizontal hkind).2.1, (h.horizontal hkind).2.2.1⟩
      | vertical =>
        obtain ⟨hcounter, hborrow⟩ := h.vertical hkind
        omega
    simp only [Scanline.capacity] at hlength
    refine ⟨?_, habsent⟩
    constructor
    · rw [hchip, h.lineLength]
    · intro _ _
      refine ⟨?_, ?_, ?_⟩
      · rw [hchip]
      · omega
      · omega
    · intro hh
      simp [habsent] at hh
    · intro hv
      simp [habsent] at hv
  | false =>
    rw [if_neg (by simp [hsync])] at hopen
    obtain ⟨hchip, hline⟩ := hopen
    have habsent : m.line.sync = .absent := by simpa [Scanline.hasSync] using hsync
    rw [hchip, hline]
    refine ⟨?_, habsent⟩
    constructor
    · exact h.lineLength
    · intro _ hzero
      rcases hcall.line with hnew | hdone
      · obtain ⟨hcounter, hdue, hlength⟩ := h.flowing habsent hzero
        have hempty : m.line.length = 0 := by
          rw [hnew]
          rfl
        refine ⟨rfl, by omega, ?_⟩
        change ((0 : Nat) : Int) = _
        omega
      · rw [lineDone_eq_false hL hmode h habsent hzero] at hdone
        exact absurd hdone (by simp)
    · intro hh
      exact absurd (habsent.symm.trans hh) (by simp)
    · intro hv
      exact absurd (habsent.symm.trans hv) (by simp)

/-- A call moves the place in the line on by the time it reports. -/
theorem phase_runLine (hL : 64 ≤ L ∧ L ≤ 2000) (hcall : AtCall m)
    (hmode : m.config.singleStep = false) (h : Phase L due m.ula m.line) :
    Phase L (m.ula.counter.toInt - m.runLine.1.tstates) m.runLine.2.ula m.runLine.2.line := by
  obtain ⟨k, hmachine, htime, -, -, hmid⟩ := runLine_eq_turns hcall
  have hturns : ∀ i ≤ k,
      Phase L (m.ula.counter.toInt - (∑ j ∈ Finset.range (i + 1), (turn^[j] m).turnTime : Nat))
        (turn^[i + 1] m).ula (turn^[i + 1] m).line := by
    intro i hi
    induction i with
    | zero =>
      obtain ⟨hready, habsent⟩ := phase_ready hL hcall hmode h
      have hfirst := phase_turn hL.1 hL.2 hready habsent
      simpa using hfirst
    | succ i ih =>
      have hnot := hmid i (by omega)
      have hready := (turn^[i + 1] m).ready_of_not_lineDone hnot
      have habsent : (turn^[i + 1] m).line.sync = .absent := by
        have hnone := (turn^[i + 1] m).hasSync_of_not_lineDone hnot
        simpa [Scanline.hasSync] using hnone
      have hnext := phase_turn (m := turn^[i + 1] m) hL.1 hL.2 (by
        rw [hready]
        exact ih (by omega)) (by rw [hready, habsent])
      rw [Finset.sum_range_succ, Int.natCast_add, ← Int.sub_sub,
        Function.iterate_succ_apply' turn (i + 1)]
      exact hnext
  rw [hmachine, htime]
  exact hturns k (Nat.le_refl k)

/-- A machine between two calls, with the line timer in phase. -/
structure OnTime (c : Config) (m : Machine) : Prop where
  atCall : AtCall m
  config : m.config = c
  phase : ∃ due, Phase c.lineTstates due m.ula m.line

variable {c : Config}

theorem PowerOn.counter (hL : 64 ≤ c.lineTstates ∧ c.lineTstates ≤ 2000) (h : PowerOn c m) :
    m.ula.counter.toInt = c.lineTstates ∧ m.ula.borrow = 0 := by
  rw [h.ula]
  exact ⟨Int32.toInt_ofNat_of_lt (by omega), rfl⟩

theorem PowerOn.onTime (hL : 64 ≤ c.lineTstates ∧ c.lineTstates ≤ 2000) (h : PowerOn c m) :
    OnTime c m := by
  refine ⟨h.atCall, h.config, c.lineTstates, ?_⟩
  constructor
  · rw [h.ula]
  · intro _ _
    refine ⟨(h.counter hL).1, by omega, ?_⟩
    rw [h.line]
    change ((0 : Nat) : Int) = _
    omega
  · intro hh
    simp [h.line] at hh
  · intro hv
    simp [h.line] at hv

theorem OnTime.call (hL : 64 ≤ c.lineTstates ∧ c.lineTstates ≤ 2000)
    (hmode : c.singleStep = false) (h : OnTime c m) : OnTime c m.call := by
  obtain ⟨due, hphase⟩ := h.phase
  obtain ⟨k, hmachine, -⟩ := runLine_eq_turns h.atCall
  refine ⟨h.atCall.runLine, ?_, _, phase_runLine hL h.atCall (by rw [h.config, hmode]) hphase⟩
  rw [Machine.call, hmachine, (iterate_frame m (k + 1)).1, h.config]

theorem OnTime.calls (hL : 64 ≤ c.lineTstates ∧ c.lineTstates ≤ 2000)
    (hmode : c.singleStep = false) (h : OnTime c m) (n : Nat) : OnTime c (Machine.call^[n] m) := by
  induction n with
  | zero => exact h
  | succ n ih =>
    rw [Function.iterate_succ_apply']
    exact ih.call hL hmode

theorem AtCall.ticks_call (h : AtCall m) :
    m.call.engine.cpu.ticks = m.engine.cpu.ticks + m.runLine.1.tstates := by
  obtain ⟨k, hmachine, htime, -⟩ := runLine_eq_turns h
  rw [call, hmachine, htime, (iterate_frame m (k + 1)).2.2]

theorem AtCall.sync_call (h : AtCall m) : m.runLine.1.sync = m.call.line.sync := by
  obtain ⟨k, hmachine, -, hsync, -⟩ := runLine_eq_turns h
  rw [call, hmachine, hsync]

/-- The timer does not lose what an instruction overruns a line by. -/
theorem OnTime.overrun_call (hL : 64 ≤ c.lineTstates ∧ c.lineTstates ≤ 2000)
    (hmode : c.singleStep = false) (h : OnTime c m)
    (hstart : m.ula.counter.toInt = c.lineTstates - m.ula.borrow)
    (hsync : m.runLine.1.sync = .horizontal) :
    m.ula.borrow + m.runLine.1.tstates = c.lineTstates + m.call.ula.borrow ∧
      m.call.ula.counter.toInt = c.lineTstates - m.call.ula.borrow ∧
      m.call.line.length = 2 * c.lineTstates := by
  obtain ⟨due, hphase⟩ := h.phase
  have hnext := phase_runLine hL h.atCall (by rw [h.config, hmode]) hphase
  rw [h.atCall.sync_call] at hsync
  obtain ⟨hcounter, hborrow, -, hlength⟩ := hnext.horizontal hsync
  change m.call.ula.counter.toInt = _ at hcounter
  change m.call.ula.counter.toInt = c.lineTstates - (m.call.ula.borrow : Int) at hborrow
  exact ⟨by omega, hborrow, hlength⟩

/-- Lines that the timer ends, one after the other, from one that began with the timer. -/
theorem OnTime.sum_tstates (hL : 64 ≤ c.lineTstates ∧ c.lineTstates ≤ 2000)
    (hmode : c.singleStep = false) (h : OnTime c m) (hcounter : m.ula.counter.toInt = c.lineTstates)
    (hborrow : m.ula.borrow = 0) (n : Nat)
    (hsync : ∀ i < n, (Machine.call^[i] m).runLine.1.sync = .horizontal) :
    (∑ i ∈ Finset.range n, (Machine.call^[i] m).runLine.1.tstates =
        n * c.lineTstates + (Machine.call^[n] m).ula.borrow) ∧
      (Machine.call^[n] m).ula.counter.toInt =
        c.lineTstates - (Machine.call^[n] m).ula.borrow ∧
      (Machine.call^[n] m).engine.cpu.ticks =
        m.engine.cpu.ticks + ∑ i ∈ Finset.range n, (Machine.call^[i] m).runLine.1.tstates := by
  induction n with
  | zero =>
    refine ⟨?_, ?_, rfl⟩
    · simpa using hborrow.symm
    · simp [hcounter, hborrow]
  | succ n ih =>
    obtain ⟨hsum, hstart, hticks⟩ := ih fun i hi => hsync i (by omega)
    have hcall := h.calls hL hmode n
    obtain ⟨hover, hstart', -⟩ := hcall.overrun_call hL hmode hstart (hsync n (by omega))
    rw [Function.iterate_succ_apply', Finset.sum_range_succ]
    refine ⟨?_, hstart', ?_⟩
    · rw [hsum, Nat.add_mul, Nat.one_mul]
      omega
    · rw [hcall.atCall.ticks_call, hticks, Nat.add_assoc]

/-- A line begins with the timer at power-on and after a vertical sync. -/
theorem OnTime.counter_of_vertical (h : OnTime c m) (hsync : m.line.sync = .vertical) :
    m.ula.counter.toInt = c.lineTstates ∧ m.ula.borrow = 0 := by
  obtain ⟨due, hphase⟩ := h.phase
  exact hphase.vertical hsync

/-- Scanline timing has no drift. With lines of 64 to 2000 T-states, from power-on with anything
in memory, registers, tape and keyboard, every line that the timer ends has two samples for each
T-state of a line; and any number of such lines that follow power-on or a vertical sync take, to
the T-state, that number of lines and what the last of them was overrun by. -/
theorem lines_do_not_drift (hmode : c.singleStep = false) (hlow : 64 ≤ c.lineTstates)
    (hhigh : c.lineTstates ≤ 2000) (h : PowerOn c m) :
    (∀ k, (Machine.call^[k] m).runLine.1.sync = .horizontal →
      (Machine.call^[k + 1] m).line.length = 2 * c.lineTstates) ∧
    ∀ k n, (k = 0 ∨ (Machine.call^[k - 1] m).runLine.1.sync = .vertical) →
      (∀ i < n, (Machine.call^[k + i] m).runLine.1.sync = .horizontal) →
      (∑ i ∈ Finset.range n, (Machine.call^[k + i] m).runLine.1.tstates =
          n * c.lineTstates + (Machine.call^[k + n] m).ula.borrow) ∧
        (Machine.call^[k + n] m).engine.cpu.ticks =
          (Machine.call^[k] m).engine.cpu.ticks +
            ∑ i ∈ Finset.range n, (Machine.call^[k + i] m).runLine.1.tstates := by
  have hL := And.intro hlow hhigh
  have hpower := h.onTime hL
  constructor
  · intro k hsync
    have hcall := hpower.calls hL hmode k
    obtain ⟨due, hphase⟩ := hcall.phase
    have hnext := phase_runLine hL hcall.atCall (by rw [hcall.config, hmode]) hphase
    rw [hcall.atCall.sync_call] at hsync
    rw [Function.iterate_succ_apply']
    exact (hnext.horizontal hsync).2.2.2
  · intro k n hstart hsync
    have hcall := hpower.calls hL hmode k
    have hshift : ∀ i, Machine.call^[k + i] m = Machine.call^[i] (Machine.call^[k] m) := by
      intro i
      rw [Nat.add_comm, Function.iterate_add_apply]
    have hbegin : (Machine.call^[k] m).ula.counter.toInt = c.lineTstates ∧
        (Machine.call^[k] m).ula.borrow = 0 := by
      cases k with
      | zero => exact h.counter hL
      | succ k =>
        have hvertical := hstart.resolve_left (Nat.succ_ne_zero k)
        rw [Nat.add_sub_cancel, (hpower.calls hL hmode k).atCall.sync_call] at hvertical
        apply hcall.counter_of_vertical
        rwa [Function.iterate_succ_apply']
    simp only [hshift] at hsync ⊢
    obtain ⟨hsum, -, hticks⟩ := hcall.sum_tstates hL hmode hbegin.1 hbegin.2 n hsync
    exact ⟨hsum, hticks⟩

/-- Lines of 64 T-states, and a program that lights the picture. -/
def shortLines : Machine := (ofConfig { lineTstates := 64 }).load 0 [0xD3, 0xFF]

theorem shortLines_do_not_drift :
    (∀ i < 2, (call^[i] shortLines).runLine.1.sync = .horizontal) ∧
      ∑ i ∈ Finset.range 2, (call^[i] shortLines).runLine.1.tstates =
        2 * 64 + (call^[2] shortLines).ula.borrow := by
  have hpower : PowerOn { lineTstates := 64 } shortLines := (powerOn_ofConfig _).load 0 _
  have hsync : ∀ i < 2, (call^[i] shortLines).runLine.1.sync = .horizontal := by decide +kernel
  have hlength : ({ lineTstates := 64 } : Config).lineTstates = 64 := rfl
  obtain ⟨hsum, -⟩ := (lines_do_not_drift rfl (by decide) (by decide) hpower).2 0 2 (.inl rfl)
    (by simpa using hsync)
  rw [hlength] at hsum
  simp only [Nat.zero_add] at hsum
  exact ⟨hsync, hsum⟩

end Machine
end Zx81
