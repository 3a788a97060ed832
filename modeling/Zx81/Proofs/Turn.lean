import Mathlib.Algebra.BigOperators.Intervals
import Zx81.Machine.Basic
import Zx81.Proofs.PassEffect

namespace Zx81

@[simp] theorem Engine.cpu_mapBoard (f : Board → Board) (e : Engine) :
    (e.mapBoard f).cpu = e.cpu := rfl

@[simp] theorem Engine.board_mapBoard (f : Board → Board) (e : Engine) :
    (e.mapBoard f).board = f e.board := rfl

@[simp] theorem Board.ula_mapUla (f : Video.Ula → Video.Ula) (b : Board) :
    (b.mapUla f).ula = f b.ula := rfl

namespace Machine

open Video (Ula Scanline)

def ula (m : Machine) : Ula := m.engine.board.ula

/-- Whether a call ends with the line as it is. -/
def lineDone (m : Machine) : Bool := Engine.lineDone m.config m.line

def openLine (m : Machine) : Machine :=
  let opened := m.engine.beginLine m.line
  { m with engine := opened.1, line := opened.2 }

/-- The machine at its next instruction: after the last one of a call, a line is opened. -/
def ready (m : Machine) : Machine := if m.lineDone then m.openLine else m

def pass (m : Machine) : Machine :=
  let p := m.engine.pass m.config m.line
  { m with engine := p.engine, line := p.line }

def passTime (m : Machine) : Nat := (m.engine.pass m.config m.line).tstates

def restart (m : Machine) : Machine :=
  if m.line.sync = .vertical then m.mapEngine (·.mapBoard (·.mapUla (·.restartLine))) else m

/-- Draws the line, and counts the picture that it completes. -/
def present (m : Machine) : Machine :=
  let drawn := m.raster.draw m.line
  let m := { m with raster := drawn.2 }
  if drawn.1 then m.countFrame else m

def closeLine (m : Machine) : Machine := m.restart.present

/-- Closes the line if it is done. -/
def settle (m : Machine) : Machine := if m.lineDone then m.closeLine else m

/-- One turn of the loop, with what a call does before the first and after the last. -/
def turn (m : Machine) : Machine := m.ready.pass.settle

def turnTime (m : Machine) : Nat := m.ready.passTime

/-- The T-states of the pulse so far; a sync has ended it. -/
def pulse (m : Machine) : Nat := if m.line.hasSync then 0 else m.line.syncLength

def call (m : Machine) : Machine := m.runLine.2

/-- A machine at the beginning of a call: it is not stopped, and its line is new or done. -/
structure AtCall (m : Machine) : Prop where
  running : m.stopped = false
  line : m.line = {} ∨ m.lineDone

section Frame

variable (m : Machine)

theorem mapEngine_frame (f : Engine → Engine) : (m.mapEngine f).config = m.config ∧
    (m.mapEngine f).line = m.line ∧ (m.mapEngine f).stopped = m.stopped ∧
    (m.mapEngine f).engine = f m.engine := ⟨rfl, rfl, rfl, rfl⟩

theorem restart_frame : m.restart.config = m.config ∧ m.restart.line = m.line ∧
    m.restart.stopped = m.stopped ∧ m.restart.engine.cpu = m.engine.cpu ∧
    m.restart.ula = if m.line.sync = .vertical then m.ula.restartLine else m.ula := by
  unfold restart
  split
  · obtain ⟨hconfig, hline, hstopped, hengine⟩ :=
      m.mapEngine_frame (·.mapBoard (·.mapUla (·.restartLine)))
    refine ⟨hconfig, hline, hstopped, ?_, ?_⟩
    · rw [hengine, Engine.cpu_mapBoard]
    · rw [ula, hengine, Engine.board_mapBoard, Board.ula_mapUla, ula]
  · exact ⟨rfl, rfl, rfl, rfl, rfl⟩

theorem present_frame : m.present.config = m.config ∧ m.present.line = m.line ∧
    m.present.stopped = m.stopped ∧ m.present.engine.cpu = m.engine.cpu ∧
    m.present.ula = m.ula := by
  unfold present
  simp only
  split
  · exact ⟨rfl, rfl, rfl, rfl, rfl⟩
  · exact ⟨rfl, rfl, rfl, rfl, rfl⟩

theorem closeLine_frame : m.closeLine.config = m.config ∧ m.closeLine.line = m.line ∧
    m.closeLine.stopped = m.stopped ∧ m.closeLine.engine.cpu = m.engine.cpu ∧
    m.closeLine.ula = if m.line.sync = .vertical then m.ula.restartLine else m.ula := by
  obtain ⟨hconfig, hline, hstopped, hcpu, hula⟩ := m.restart.present_frame
  obtain ⟨hconfig', hline', hstopped', hcpu', hula'⟩ := m.restart_frame
  exact ⟨hconfig.trans hconfig', hline.trans hline', hstopped.trans hstopped',
    hcpu.trans hcpu', hula.trans hula'⟩

theorem openLine_frame : m.openLine.config = m.config ∧ m.openLine.stopped = m.stopped ∧
    m.openLine.engine.cpu = m.engine.cpu := by
  refine ⟨rfl, rfl, ?_⟩
  change (m.engine.beginLine m.line).1.cpu = _
  unfold Engine.beginLine
  simp only
  split <;> rfl

theorem ready_frame : m.ready.config = m.config ∧ m.ready.stopped = m.stopped ∧
    m.ready.engine.cpu = m.engine.cpu := by
  unfold ready
  split
  · exact m.openLine_frame
  · exact ⟨rfl, rfl, rfl⟩

theorem settle_frame : m.settle.config = m.config ∧ m.settle.line = m.line ∧
    m.settle.stopped = m.stopped ∧ m.settle.engine.cpu = m.engine.cpu ∧
    m.settle.ula = if m.line.sync = .vertical then m.ula.restartLine else m.ula := by
  unfold settle
  by_cases h : m.lineDone
  · rw [if_pos h]
    exact m.closeLine_frame
  · have hsync : m.line.sync ≠ .vertical := by
      intro hv
      simp [lineDone, Engine.lineDone, Scanline.hasSync, hv] at h
    rw [if_neg h, if_neg hsync]
    exact ⟨rfl, rfl, rfl, rfl, rfl⟩

theorem config_turn : m.turn.config = m.config :=
  (m.ready.pass.settle_frame).1.trans m.ready_frame.1

theorem stopped_turn : m.turn.stopped = m.stopped :=
  (m.ready.pass.settle_frame).2.2.1.trans m.ready_frame.2.1

theorem line_turn : m.turn.line = m.ready.pass.line := m.ready.pass.settle_frame.2.1

theorem ula_turn : m.turn.ula =
    if m.turn.line.sync = .vertical then m.ready.pass.ula.restartLine else m.ready.pass.ula := by
  rw [line_turn]
  exact m.ready.pass.settle_frame.2.2.2.2

theorem generators_turn : m.turn.ula.lit = m.ready.pass.ula.lit ∧
    m.turn.ula.nmi = m.ready.pass.ula.nmi := by
  rw [ula_turn]
  split
  · rw [Ula.restartLine]
    exact ⟨rfl, rfl⟩
  · exact ⟨rfl, rfl⟩

theorem ticks_turn : m.turn.engine.cpu.ticks = m.engine.cpu.ticks + m.turnTime := by
  obtain ⟨t, n, u, h⟩ := m.ready.engine.pass_effect m.ready.config m.ready.line
  have hcpu : m.turn.engine.cpu = m.ready.pass.engine.cpu := m.ready.pass.settle_frame.2.2.2.1
  have htime : m.turnTime = t + n := h.tstates
  rw [hcpu, htime, ← m.ready_frame.2.2]
  exact h.ticks

theorem turnTime_pos : 0 < m.turnTime := by
  obtain ⟨t, n, u, h⟩ := m.ready.engine.pass_effect m.ready.config m.ready.line
  have hlow := h.time.1
  have htime : m.turnTime = t + n := h.tstates
  omega

theorem lineDone_settle : m.settle.lineDone = m.lineDone := by
  obtain ⟨hconfig, hline, -⟩ := m.settle_frame
  rw [lineDone, lineDone, hconfig, hline]

/-- A call after a sync begins a line with what it carries over; any other goes on with the
pulse so far. -/
theorem openLine_eq :
    if m.line.hasSync then
      m.openLine.ula = { m.ula with borrow := 0 } ∧ m.openLine.line.syncLength = 0 ∧
        m.openLine.line.sync = .absent ∧
        m.openLine.line.length = min (2 * m.ula.borrow) Scanline.capacity
    else m.openLine.ula = m.ula ∧ m.openLine.line = m.line.clearSamples := by
  have hsync : m.line.clearSamples.hasSync = m.line.hasSync := rfl
  unfold openLine Engine.beginLine
  simp only [hsync]
  split
  · refine ⟨rfl, rfl, rfl, ?_⟩
    change (Scanline.fill m.line.clearSamples.resetSync _ (2 * m.ula.borrow)).length = _
    rw [Scanline.length_fill]
    change 0 + min (2 * m.ula.borrow) (Scanline.capacity - 0) = _
    omega
  · exact ⟨rfl, rfl⟩

theorem lineDone_of_hasSync (h : m.line.hasSync) : m.lineDone := by
  simp [lineDone, Engine.lineDone, h]

/-- What the next instruction finds of the pulse and the generators. -/
theorem ready_pulse : m.ready.line.syncLength = m.pulse ∧ m.ready.line.sync = .absent ∧
    m.ready.ula.lit = m.ula.lit ∧ m.ready.ula.nmi = m.ula.nmi := by
  have hopen := m.openLine_eq
  cases hsync : m.line.hasSync with
  | true =>
    rw [if_pos hsync] at hopen
    obtain ⟨hchip, hlength, habsent, -⟩ := hopen
    rw [ready, if_pos (m.lineDone_of_hasSync hsync), pulse, if_pos hsync, hchip]
    exact ⟨hlength, habsent, rfl, rfl⟩
  | false =>
    rw [if_neg (by simp [hsync])] at hopen
    obtain ⟨hchip, hline⟩ := hopen
    have habsent : m.line.sync = .absent := by simpa [Scanline.hasSync] using hsync
    rw [pulse, if_neg (by simp [hsync]), ready]
    split
    · rw [hchip, hline]
      exact ⟨rfl, habsent, rfl, rfl⟩
    · exact ⟨rfl, habsent, rfl, rfl⟩

theorem hasSync_of_not_lineDone (h : m.lineDone = false) : m.line.hasSync = false := by
  simp only [lineDone, Engine.lineDone, Bool.or_eq_false_iff] at h
  exact h.2

/-- An instruction that does not end the line sends samples. -/
theorem length_pass (h : m.pass.lineDone = false) : m.line.length < m.pass.line.length := by
  have hgrown := m.engine.length_pass m.config m.line h
  change m.line.length + 8 ≤ m.pass.line.length at hgrown
  omega

theorem ready_of_not_lineDone (h : m.lineDone = false) : m.ready = m := by
  simp [ready, h]

theorem passes_succ (bound total : Nat) :
    Engine.passes m.config (bound + 1) total m.engine m.line =
      if m.pass.lineDone then ⟨total + m.passTime, m.pass.engine, m.pass.line⟩
      else Engine.passes m.config bound (total + m.passTime) m.pass.engine m.pass.line := rfl

theorem limit_of_not_lineDone (h : m.lineDone = false) :
    m.line.length < Engine.limit m.config := by
  simp only [lineDone, Engine.lineDone, Bool.or_eq_false_iff, decide_eq_false_iff_not] at h
  exact Nat.lt_of_not_le h.1

end Frame

/-- The loop of a call, from an instruction that is about to run. It ends before its bound,
because every turn sends samples. -/
theorem passes_eq_turns (m : Machine) (bound total : Nat)
    (h : Engine.limit m.config ≤ m.line.length + (bound + 1)) :
    ∃ k engine line,
      Engine.passes m.config (bound + 1) total m.engine m.line =
          ⟨total + (m.passTime + ∑ i ∈ Finset.range k, (turn^[i] m.pass.settle).turnTime),
            engine, line⟩ ∧
        closeLine { m with engine, line } = turn^[k] m.pass.settle ∧
        (turn^[k] m.pass.settle).lineDone ∧
        ∀ i < k, (turn^[i] m.pass.settle).lineDone = false := by
  cases hdone : m.pass.lineDone with
  | true =>
    refine ⟨0, m.pass.engine, m.pass.line, ?_, ?_, ?_, ?_⟩
    · rw [passes_succ, if_pos hdone, Finset.sum_range_zero, Nat.add_zero]
    · exact (if_pos hdone).symm
    · exact m.pass.lineDone_settle.trans hdone
    · intro i hi
      exact absurd hi (Nat.not_lt_zero i)
  | false =>
    have hlength := m.length_pass hdone
    have hlimit := m.pass.limit_of_not_lineDone hdone
    have hsettle : m.pass.settle = m.pass := by simp [settle, hdone]
    have hready : m.pass.ready = m.pass := m.pass.ready_of_not_lineDone hdone
    have hturn : m.pass.turn = m.pass.pass.settle := by rw [turn, hready]
    change m.pass.line.length < Engine.limit m.config at hlimit
    match bound with
    | 0 => omega
    | bound + 1 =>
      have hbound : Engine.limit m.pass.config ≤ m.pass.line.length + (bound + 1) := by
        change Engine.limit m.config ≤ _
        omega
      obtain ⟨k, engine, line, hpasses, hclose, hend, hmid⟩ :=
        passes_eq_turns m.pass bound (total + m.passTime) hbound
      rw [← hturn] at hpasses hclose hend hmid
      refine ⟨k + 1, engine, line, ?_, ?_, ?_, ?_⟩
      · have hfirst : (turn^[0] m.pass.settle).turnTime = m.pass.passTime := by
          rw [hsettle, Function.iterate_zero_apply, turnTime, hready]
        rw [passes_succ, if_neg (by simp [hdone]), Finset.sum_range_succ', hfirst]
        simp only [hsettle, Function.iterate_succ_apply]
        refine hpasses.trans (congrArg (Engine.Pass.mk · engine line) ?_)
        omega
      · rw [hsettle, Function.iterate_succ_apply]
        exact hclose
      · rw [hsettle, Function.iterate_succ_apply]
        exact hend
      · intro i hi
        cases i with
        | zero => rwa [hsettle]
        | succ i =>
          rw [hsettle, Function.iterate_succ_apply]
          exact hmid i (by omega)

/-- At the beginning of a call the first turn opens the line. -/
theorem AtCall.ready_eq {m : Machine} (h : AtCall m) : m.ready = m.openLine := by
  rcases h.line with hnew | hdone
  · have hnot : m.lineDone = false := by
      simp only [lineDone, hnew]
      unfold Engine.lineDone Engine.limit
      split <;> rfl
    rw [ready_of_not_lineDone m hnot]
    obtain ⟨config, engine, line, raster, schedule, stopped, frames⟩ := m
    subst hnew
    rfl
  · exact if_pos hdone

/-- A call that runs instructions, in terms of what its loop leaves. -/
theorem runLine_of_passes {m : Machine} (h : m.stopped = false) {t : Nat} {engine : Engine}
    {line : Scanline}
    (hpasses : Engine.passes m.config Scanline.cutoff 0 m.openLine.engine m.openLine.line =
      ⟨t, engine, line⟩) :
    m.runLine.1.tstates = t ∧ m.runLine.1.sync = line.sync ∧
      m.runLine.2 = closeLine { m with engine, line } := by
  obtain ⟨config, engine₀, line₀, raster, schedule, stopped, frames⟩ := m
  subst h
  have hscan : engine₀.scan config false line₀ = Engine.endScan ⟨t, engine, line⟩ := by
    unfold openLine at hpasses
    unfold Engine.scan
    cases hbegin : engine₀.beginLine line₀ with
    | mk opened first =>
      simp only [hbegin] at hpasses
      simp only [hpasses, Bool.false_eq_true, if_false]
  simp only [runLine, hscan, Engine.endScan, closeLine, restart, present]
  by_cases hv : line.sync = .vertical
  · simp only [if_pos hv, mapEngine, and_self]
  · simp only [if_neg hv, and_self]

theorem iterate_frame (m : Machine) (k : Nat) :
    (turn^[k] m).config = m.config ∧ (turn^[k] m).stopped = m.stopped ∧
      (turn^[k] m).engine.cpu.ticks =
        m.engine.cpu.ticks + ∑ i ∈ Finset.range k, (turn^[i] m).turnTime := by
  induction k with
  | zero => exact ⟨rfl, rfl, rfl⟩
  | succ k ih =>
    obtain ⟨hconfig, hstopped, hticks⟩ := ih
    rw [Function.iterate_succ_apply', Finset.sum_range_succ]
    refine ⟨?_, ?_, ?_⟩
    · rw [config_turn, hconfig]
    · rw [stopped_turn, hstopped]
    · rw [ticks_turn, hticks, Nat.add_assoc]

/-- A call for a line is a number of turns, of which the last alone ends with the line done. -/
theorem runLine_eq_turns {m : Machine} (h : AtCall m) :
    ∃ k, m.runLine.2 = turn^[k + 1] m ∧
      m.runLine.1.tstates = ∑ i ∈ Finset.range (k + 1), (turn^[i] m).turnTime ∧
      m.runLine.1.sync = (turn^[k + 1] m).line.sync ∧
      (turn^[k + 1] m).lineDone ∧
      ∀ i < k, (turn^[i + 1] m).lineDone = false := by
  have hlimit : Engine.limit m.openLine.config ≤ m.openLine.line.length + (3999 + 1) := by
    unfold Engine.limit Scanline.cutoff
    split <;> omega
  obtain ⟨k, engine, line, hpasses, hclose, hend, hmid⟩ :=
    passes_eq_turns m.openLine 3999 0 hlimit
  have hturn : m.openLine.pass.settle = m.turn := by rw [turn, h.ready_eq]
  rw [hturn] at hpasses hclose hend hmid
  obtain ⟨htime, hsync, hmachine⟩ := runLine_of_passes h.running hpasses
  have hline : (closeLine { m with engine, line }).line = line := (closeLine_frame _).2.1
  refine ⟨k, hmachine.trans hclose, ?_, ?_, hend, hmid⟩
  · have hfirst : (turn^[0] m).turnTime = m.openLine.passTime := by
      rw [Function.iterate_zero_apply, turnTime, h.ready_eq]
    rw [htime, Finset.sum_range_succ', hfirst, Nat.zero_add, Nat.add_comm]
    rfl
  · rw [hsync, ← hline]
    exact congrArg (·.line.sync) hclose

/-- A call leaves the machine at the beginning of the next. -/
theorem AtCall.runLine {m : Machine} (h : AtCall m) : AtCall m.runLine.2 := by
  obtain ⟨k, hmachine, -, -, hend, -⟩ := runLine_eq_turns h
  rw [hmachine]
  refine ⟨?_, .inr hend⟩
  rw [(iterate_frame m (k + 1)).2.1, h.running]

/-- A machine as it is switched on, whatever its memory, registers, tape and keyboard hold. -/
structure PowerOn (c : Config) (m : Machine) : Prop where
  config : m.config = c
  ula : m.ula = { lineLength := c.lineTstates }
  line : m.line = {}
  running : m.stopped = false

theorem powerOn_ofConfig (c : Config) : PowerOn c (ofConfig c) := ⟨rfl, rfl, rfl, rfl⟩

/-- The machine of a configuration that can run is one as it is switched on. -/
theorem PowerOn.of_new {c : Config} {m : Machine} (h : new c = .ok m) : PowerOn c m := by
  rw [eq_ofConfig_of_new h]
  exact powerOn_ofConfig c

theorem PowerOn.load {c : Config} {m : Machine} (h : PowerOn c m) (address : UInt16)
    (bytes : List UInt8) : PowerOn c (m.load address bytes) :=
  ⟨h.config, h.ula, h.line, h.running⟩

theorem PowerOn.atCall {c : Config} {m : Machine} (h : PowerOn c m) : AtCall m :=
  ⟨h.running, .inl h.line⟩

end Machine
end Zx81
