import Zx81.Proofs.Turn

namespace Zx81

open Video (Ula Scanline)
open Z80 (Cpu)

/-- Two lines with the same sync, whatever their samples. -/
structure SameSync (line line' : Scanline) : Prop where
  length : line'.syncLength = line.syncLength
  sync : line'.sync = line.sync

namespace Video.Ula

variable {line line' : Scanline}

theorem draw_fst_congr (t : Nat) (u : Ula) (line line' : Scanline) :
    (u.draw t line').1 = (u.draw t line).1 := by
  rw [draw_fst, draw_fst]

theorem length_draw_congr (t : Nat) (u : Ula) (h : line'.length = line.length) :
    (u.draw t line').2.length = (u.draw t line).2.length := by
  obtain ⟨samples, hdrawn, hsize⟩ := draw_snd t u line
  obtain ⟨samples', hdrawn', hsize'⟩ := draw_snd t u line'
  rw [hdrawn, hdrawn']
  change samples'.size = samples.size
  rw [hsize, hsize', h]

theorem draw_congr (t : Nat) (u : Ula) (h : SameSync line line') :
    (u.draw t line').1 = (u.draw t line).1 ∧
      SameSync (u.draw t line).2 (u.draw t line').2 := by
  constructor
  · exact draw_fst_congr t u line line'
  · obtain ⟨samples, hdrawn, -⟩ := draw_snd t u line
    obtain ⟨samples', hdrawn', -⟩ := draw_snd t u line'
    rw [hdrawn, hdrawn', h.length, h.sync]
    exact ⟨rfl, rfl⟩

theorem endLine_congr (u : Ula) (h : SameSync line line') :
    (u.endLine line').1 = (u.endLine line).1 ∧
      SameSync (u.endLine line).2 (u.endLine line').2 := by
  unfold endLine
  rw [h.length]
  by_cases htimed : u.lit ∧ line.syncLength = 0
  · simp only [if_pos htimed]
    exact ⟨trivial, rfl, rfl⟩
  · simp only [if_neg htimed]
    exact ⟨trivial, h⟩

end Video.Ula

namespace Engine

variable {line line' : Scanline}

theorem drawLine_fst_congr (e : Engine) {f : Ula → Scanline → Ula × Scanline}
    (hf : (f e.board.ula line').1 = (f e.board.ula line).1) :
    (e.drawLine f line').1 = (e.drawLine f line).1 := by
  change Engine.mk e.cpu (Board.mk _ (f e.board.ula line').1 _ _ _) e.tape e.position = _
  rw [hf]
  rfl

/-- A change of chip and line that reads no samples does the same on lines with the same sync. -/
theorem drawLine_congr (e : Engine) {f : Ula → Scanline → Ula × Scanline}
    (hf : ∀ u, (f u line').1 = (f u line).1 ∧ SameSync (f u line).2 (f u line').2) :
    (e.drawLine f line').1 = (e.drawLine f line).1 ∧
      SameSync (e.drawLine f line).2 (e.drawLine f line').2 := by
  obtain ⟨hchip, hline⟩ := hf e.board.ula
  exact ⟨e.drawLine_fst_congr hchip, hline⟩

/-- Of the samples so far, an instruction that is drawn tells their number only. -/
theorem drawInstruction_congr (e : Engine) (t : Nat) (h : line'.length = line.length) :
    (e.drawInstruction t line').1 = (e.drawInstruction t line).1 ∧
      (e.drawInstruction t line').2.length = (e.drawInstruction t line).2.length := by
  rw [drawInstruction_eq, drawInstruction_eq]
  constructor
  · exact e.drawLine_fst_congr (Ula.draw_fst_congr t e.board.ula line line')
  · exact Ula.length_draw_congr t e.board.ula h

/-- The machine has come to the end of a line with a halted processor, which an interrupt wakes. -/
def wakes (e : Engine) : Bool := e.board.ula.expired && e.board.ula.nmi && e.cpu.regs.halted

/-- Only an interrupt that wakes the processor reads the number of samples. -/
theorem lineNmi_congr (e : Engine) (hexpired : e.board.ula.expired)
    (h : e.wakes → e.board.ula.haltWait line' = e.board.ula.haltWait line) :
    e.lineNmi line' = e.lineNmi line := by
  have hnmi : e.board.ula.nmi → e.cpu.nmi e.board (e.board.ula.haltWait line') =
      e.cpu.nmi e.board (e.board.ula.haltWait line) := by
    intro hon
    cases hhalted : e.cpu.regs.halted with
    | true => rw [h (by simp [wakes, hexpired, hon, hhalted])]
    | false =>
      have hrun (wait : Nat) := Z80.Request.nmi_run wait e.cpu e.board
      simp only [Z80.Request.start, hhalted, Bool.false_eq_true, if_false] at hrun
      exact (hrun _).trans (hrun _).symm
  unfold lineNmi
  by_cases hon : e.board.ula.nmi
  · simp only [if_pos hon, onBoard, hnmi hon]
  · simp only [if_neg hon]

theorem finishLine_congr (e : Engine) (t : Nat) (hsync : SameSync line line')
    (h : e.wakes → e.board.ula.haltWait line' = e.board.ula.haltWait line) :
    (finishLine t e line').engine = (finishLine t e line).engine ∧
      SameSync (finishLine t e line).line (finishLine t e line').line := by
  by_cases hexpired : e.board.ula.expired
  · have hnmi := e.lineNmi_congr hexpired h
    have hend := (e.lineNmi line).2.drawLine_congr fun u => u.endLine_congr hsync
    simp only [finishLine, if_pos hexpired, hnmi]
    exact hend
  · simp only [finishLine, if_neg hexpired]
    exact ⟨trivial, hsync⟩

/-- An interrupt that wakes the processor takes its wait and eleven T-states. -/
theorem time_finishLine (e : Engine) (t : Nat) (h : e.wakes) :
    (finishLine t e line).tstates = t + (e.board.ula.haltWait line + 11) := by
  obtain ⟨⟨hexpired, hnmi⟩, hhalted⟩ : (e.board.ula.expired ∧ e.board.ula.nmi) ∧
      e.cpu.regs.halted := by simpa [wakes] using h
  have htime := (e.cpu.nmi_board e.board (e.board.ula.haltWait line)).1
  rw [if_pos hhalted] at htime
  simp only [finishLine, if_pos hexpired, lineNmi, if_pos hnmi, onBoard, htime]

end Engine

namespace Machine

section Wait

variable (m : Machine)

/-- The next instruction with its maskable interrupts, and the time of both. -/
def ran (m : Machine) : Nat × Engine := m.ready.engine.runInstruction m.ready.config

def drawnOn (m : Machine) (line : Scanline) : Engine × Scanline :=
  m.ran.2.drawInstruction m.ran.1 line

def drawn (m : Machine) : Engine × Scanline := m.drawnOn m.ready.line

/-- The wait of the interrupt at the end of a line, if the next instruction ends this line and the
interrupt wakes the processor. -/
def wakeWait (m : Machine) (line : Scanline) : Option Nat :=
  let drawn := m.drawnOn line
  if drawn.1.wakes then some (drawn.1.board.ula.haltWait drawn.2) else none

/-- The wait does not depend on the samples that a call would drop before the instruction. -/
def WaitsAlike (m : Machine) : Prop := m.wakeWait m.ready.line = m.wakeWait m.openLine.line

instance : Decidable m.WaitsAlike := inferInstanceAs (Decidable (_ = _))

theorem pass_eq : m.ready.engine.pass m.ready.config m.ready.line =
    Engine.finishLine m.ran.1 m.drawn.1 m.drawn.2 := by
  simp only [Engine.pass, drawn, drawnOn, ran]

theorem turnTime_eq : m.turnTime = (Engine.finishLine m.ran.1 m.drawn.1 m.drawn.2).tstates :=
  congrArg Engine.Pass.tstates m.pass_eq

/-- The wait is taken from the number of samples. -/
theorem wakeWait_congr {line line' : Scanline} (h : line'.length = line.length) :
    m.wakeWait line' = m.wakeWait line := by
  obtain ⟨hengine, hlength⟩ := m.ran.2.drawInstruction_congr m.ran.1 h
  unfold wakeWait drawnOn Ula.haltWait
  simp only
  rw [hengine, hlength]

theorem ready_engine : m.ready.engine =
    if m.line.hasSync then m.engine.mapBoard (·.mapUla fun u => { u with borrow := 0 })
    else m.engine := by
  cases hsync : m.line.hasSync with
  | true =>
    have hcleared : m.line.clearSamples.hasSync = true := hsync
    rw [ready, if_pos (m.lineDone_of_hasSync hsync), if_pos rfl]
    change (m.engine.beginLine m.line).1 = _
    simp only [Engine.beginLine, if_pos hcleared]
    rfl
  | false =>
    have hcleared : ¬m.line.clearSamples.hasSync := by
      change ¬m.line.hasSync
      simp [hsync]
    rw [if_neg (by simp), ready]
    split
    · change (m.engine.beginLine m.line).1 = _
      simp only [Engine.beginLine, if_neg hcleared]
    · rfl

theorem ready_schedule : m.ready.schedule = m.schedule := by
  unfold ready
  split <;> rfl

theorem restart_engine : m.restart.engine =
    if m.line.sync = .vertical then m.engine.mapBoard (·.mapUla (·.restartLine))
    else m.engine := by
  unfold restart
  split
  · exact (m.mapEngine_frame _).2.2.2
  · rfl

variable {m}

/-- Without keys to be typed, a completed picture changes nothing of what runs. -/
theorem countFrame_engine (h : m.schedule = {}) :
    m.countFrame.engine = m.engine ∧ m.countFrame.schedule = {} := by
  obtain ⟨config, engine, line, raster, schedule, stopped, frames⟩ := m
  subst h
  exact ⟨rfl, rfl⟩

theorem present_engine (h : m.schedule = {}) :
    m.present.engine = m.engine ∧ m.present.schedule = {} := by
  unfold present
  simp only
  split
  · exact countFrame_engine h
  · exact ⟨rfl, h⟩

theorem restart_schedule : m.restart.schedule = m.schedule := by
  unfold restart
  split
  · rw [mapEngine]
  · rfl

theorem settle_engine (h : m.schedule = {}) :
    m.settle.engine = m.restart.engine ∧ m.settle.schedule = {} := by
  cases hdone : m.lineDone with
  | true =>
    rw [settle, if_pos hdone, closeLine]
    exact present_engine (restart_schedule.trans h)
  | false =>
    have hsync := m.hasSync_of_not_lineDone hdone
    have hvertical : m.line.sync ≠ .vertical := by
      intro hv
      simp [Scanline.hasSync, hv] at hsync
    rw [settle, if_neg (by simp [hdone]), restart, if_neg hvertical]
    exact ⟨rfl, h⟩

end Wait

/-- Two machines, the second in single-step mode, that differ in their pictures only. -/
structure Abreast (m m' : Machine) : Prop where
  config : m'.config = { m.config with singleStep := true }
  engine : m'.engine = m.engine
  line : SameSync m.line m'.line
  schedule : m.schedule = {}
  schedule' : m'.schedule = {}

namespace Abreast

variable {m m' : Machine}

theorem hasSync (h : Abreast m m') : m'.line.hasSync = m.line.hasSync := by
  rw [Scanline.hasSync, h.line.sync]
  rfl

theorem ready (h : Abreast m m') :
    m'.ready.engine = m.ready.engine ∧ SameSync m.ready.line m'.ready.line := by
  have hpulse : m'.pulse = m.pulse := by rw [pulse, pulse, h.hasSync, h.line.length]
  refine ⟨?_, ?_, ?_⟩
  · rw [ready_engine, ready_engine, h.hasSync, h.engine]
  · rw [m.ready_pulse.1, m'.ready_pulse.1, hpulse]
  · rw [m.ready_pulse.2.1, m'.ready_pulse.2.1]

theorem ran (h : Abreast m m') : m'.ran = m.ran := by
  have hconfig : m'.ready.config = { m.ready.config with singleStep := true } := by
    rw [m.ready_frame.1, m'.ready_frame.1, h.config]
  rw [Machine.ran, Machine.ran, hconfig, h.ready.1]
  rfl

theorem drawn (h : Abreast m m') :
    m'.drawn.1 = m.drawn.1 ∧ SameSync m.drawn.2 m'.drawn.2 := by
  rw [Machine.drawn, Machine.drawn, drawnOn, drawnOn, h.ran, Engine.drawInstruction_eq,
    Engine.drawInstruction_eq]
  exact m.ran.2.drawLine_congr fun u => u.draw_congr m.ran.1 h.ready.2

theorem length_openLine (h : Abreast m m') :
    m'.openLine.line.length = m.openLine.line.length := by
  have hopen := m.openLine_eq
  have hopen' := m'.openLine_eq
  rw [h.hasSync] at hopen'
  cases hsync : m.line.hasSync with
  | true =>
    rw [if_pos hsync] at hopen hopen'
    have hula : m'.ula = m.ula := by rw [ula, ula, h.engine]
    rw [hopen.2.2.2, hopen'.2.2.2, hula]
  | false =>
    rw [if_neg (by simp [hsync])] at hopen hopen'
    rw [hopen.2, hopen'.2]
    rfl

/-- The wait in single-step mode, in terms of the machine in normal mode. -/
theorem wakeWait (h : Abreast m m') (hcall : AtCall m') :
    m'.wakeWait m'.ready.line = m.wakeWait m.openLine.line := by
  have hsame (line : Scanline) : m'.wakeWait line = m.wakeWait line := by
    rw [Machine.wakeWait, Machine.wakeWait, drawnOn, drawnOn, h.ran]
  rw [hsame, hcall.ready_eq]
  exact m.wakeWait_congr h.length_openLine

/-- Where the processor is woken, both machines wait as long exactly if the waits are alike. -/
theorem waitsAlike_iff (h : Abreast m m') (hcall : AtCall m') :
    m.WaitsAlike ↔ (m.drawn.1.wakes →
      m.drawn.1.board.ula.haltWait m'.drawn.2 = m.drawn.1.board.ula.haltWait m.drawn.2) := by
  rw [WaitsAlike, ← h.wakeWait hcall]
  change (if m.drawn.1.wakes then some (m.drawn.1.board.ula.haltWait m.drawn.2) else none) =
    (if m'.drawn.1.wakes then some (m'.drawn.1.board.ula.haltWait m'.drawn.2) else none) ↔ _
  rw [h.drawn.1]
  by_cases hwakes : m.drawn.1.wakes
  · rw [if_pos hwakes, if_pos hwakes, Option.some.injEq, forall_prop_of_true hwakes]
    exact eq_comm
  · rw [if_neg hwakes, if_neg hwakes]
    constructor
    · intro _ hon
      exact absurd hon hwakes
    · intro _
      rfl

theorem pass (h : Abreast m m') (hcall : AtCall m') (hwait : m.WaitsAlike) :
    m'.ready.pass.engine = m.ready.pass.engine ∧
      SameSync m.ready.pass.line m'.ready.pass.line := by
  have hhalt := (h.waitsAlike_iff hcall).mp hwait
  have hengine := congrArg Engine.Pass.engine m.pass_eq
  have hengine' := congrArg Engine.Pass.engine m'.pass_eq
  have hline := congrArg Engine.Pass.line m.pass_eq
  have hline' := congrArg Engine.Pass.line m'.pass_eq
  rw [Machine.pass, Machine.pass, hengine, hengine', hline, hline', h.ran, h.drawn.1]
  exact m.drawn.1.finishLine_congr m.ran.1 h.drawn.2 hhalt

/-- Machines that agree go on to agree if they wait alike. -/
theorem turn (h : Abreast m m') (hcall : AtCall m') (hwait : m.WaitsAlike) :
    Abreast m.turn m'.turn := by
  obtain ⟨hengine, hline⟩ := h.pass hcall hwait
  have hschedule : m.ready.pass.schedule = {} := m.ready_schedule.trans h.schedule
  have hschedule' : m'.ready.pass.schedule = {} := m'.ready_schedule.trans h.schedule'
  obtain ⟨hsettle, hnone⟩ := settle_engine hschedule
  obtain ⟨hsettle', hnone'⟩ := settle_engine hschedule'
  refine ⟨?_, ?_, ?_, hnone, hnone'⟩
  · rw [config_turn, config_turn, h.config]
  · rw [Machine.turn, Machine.turn, hsettle, hsettle', restart_engine, restart_engine, hline.sync,
      hengine]
  · rw [line_turn, line_turn]
    exact hline

/-- Different waits of the interrupt take different times. -/
theorem turnTime_ne (h : Abreast m m') (hcall : AtCall m') (hwait : ¬m.WaitsAlike) :
    m'.turnTime ≠ m.turnTime := by
  rw [h.waitsAlike_iff hcall] at hwait
  obtain ⟨hwakes, hne⟩ := Classical.not_imp.mp hwait
  have hwakes' : m'.drawn.1.wakes = true := by rw [h.drawn.1, hwakes]
  rw [m.turnTime_eq, m'.turnTime_eq, Engine.time_finishLine _ _ hwakes,
    Engine.time_finishLine _ _ hwakes', h.ran, h.drawn.1]
  omega

end Abreast

/-- The state that a program can tell, and the clock. -/
structure SameState (m m' : Machine) : Prop where
  regs : m'.engine.cpu.regs = m.engine.cpu.regs
  ticks : m'.engine.cpu.ticks = m.engine.cpu.ticks
  memory : m'.engine.board.memory = m.engine.board.memory
  ula : m'.ula = m.ula

theorem Abreast.sameState {m m' : Machine} (h : Abreast m m') : SameState m m' := by
  refine ⟨?_, ?_, ?_, ?_⟩
  · rw [h.engine]
  · rw [h.engine]
  · rw [h.engine]
  · rw [ula, ula, h.engine]

theorem Abreast.iterate {m m' : Machine} (h : Abreast m m')
    (hcall : ∀ k, AtCall (Machine.turn^[k] m')) (n : Nat)
    (hwait : ∀ k < n, (Machine.turn^[k] m).WaitsAlike) :
    Abreast (Machine.turn^[n] m) (Machine.turn^[n] m') := by
  induction n with
  | zero => exact h
  | succ n ih =>
    have hbefore := ih fun k hk => hwait k (by omega)
    rw [Function.iterate_succ_apply', Function.iterate_succ_apply']
    exact hbefore.turn (hcall n) (hwait n (by omega))

theorem Abreast.sameState_iff {m m' : Machine} (h : Abreast m m')
    (hcall : ∀ k, AtCall (Machine.turn^[k] m')) (n : Nat) :
    (∀ k ≤ n, SameState (Machine.turn^[k] m) (Machine.turn^[k] m')) ↔
      ∀ k < n, (Machine.turn^[k] m).WaitsAlike := by
  constructor
  · intro hsame
    induction n with
    | zero => exact fun k hk => absurd hk (Nat.not_lt_zero k)
    | succ n ih =>
      have hbefore := ih fun k hk => hsame k (by omega)
      have habreast := h.iterate hcall n hbefore
      have hlast : (Machine.turn^[n] m).WaitsAlike := by
        by_contra hne
        -- the clocks come apart where the waits do
        have hticks := (hsame (n + 1) (Nat.le_refl _)).ticks
        rw [Function.iterate_succ_apply', Function.iterate_succ_apply', ticks_turn, ticks_turn,
          habreast.engine] at hticks
        exact habreast.turnTime_ne (hcall n) hne (Nat.add_left_cancel hticks)
      intro k hk
      rcases Nat.lt_or_eq_of_le (Nat.le_of_lt_succ hk) with hlt | rfl
      · exact hbefore k hlt
      · exact hlast
  · intro hwait k hk
    exact (h.iterate hcall k fun i hi => hwait i (by omega)).sameState

/-- The machine in normal or in single-step mode. -/
def inMode (m : Machine) (singleStep : Bool) : Machine :=
  { m with config := { m.config with singleStep } }

theorem lineDone_turn_of_singleStep {m : Machine} (h : m.config.singleStep) :
    m.turn.lineDone := by
  rw [turn, lineDone_settle]
  by_contra hnot
  have hgrown := m.ready.length_pass (by simpa using hnot)
  have hlimit := m.ready.pass.limit_of_not_lineDone (by simpa using hnot)
  have hmode : m.ready.pass.config.singleStep = true := by
    change m.ready.config.singleStep = true
    rw [m.ready_frame.1, h]
  rw [Engine.limit, if_pos hmode] at hlimit
  omega

/-- In single-step mode a call is one turn. -/
theorem AtCall.call_of_singleStep {m : Machine} (h : AtCall m) (hmode : m.config.singleStep) :
    m.call = m.turn := by
  obtain ⟨k, hmachine, -, -, -, hmid⟩ := runLine_eq_turns h
  cases k with
  | zero => exact hmachine
  | succ k =>
    have hnot := hmid 0 (Nat.succ_pos k)
    rw [Function.iterate_succ_apply', Function.iterate_zero_apply,
      lineDone_turn_of_singleStep hmode] at hnot
    cases hnot

theorem AtCall.calls_of_singleStep {m : Machine} (h : AtCall m) (hmode : m.config.singleStep)
    (n : Nat) : Machine.call^[n] m = Machine.turn^[n] m ∧ AtCall (Machine.call^[n] m) := by
  induction n with
  | zero => exact ⟨rfl, h⟩
  | succ n ih =>
    obtain ⟨hsame, hcall⟩ := ih
    have hmode' : (Machine.call^[n] m).config.singleStep := by
      rw [hsame, (iterate_frame m n).1, hmode]
    rw [Function.iterate_succ_apply', Function.iterate_succ_apply', ← hsame]
    exact ⟨hcall.call_of_singleStep hmode', hcall.runLine⟩

/-- Any number of calls are at least as many turns. -/
theorem AtCall.calls {m : Machine} (h : AtCall m) (n : Nat) :
    AtCall (Machine.call^[n] m) ∧ ∃ k, n ≤ k ∧ Machine.call^[n] m = Machine.turn^[k] m := by
  induction n with
  | zero => exact ⟨h, 0, Nat.le_refl 0, rfl⟩
  | succ n ih =>
    obtain ⟨hcall, k, hle, hsame⟩ := ih
    obtain ⟨j, hmachine, -⟩ := runLine_eq_turns hcall
    rw [Function.iterate_succ_apply']
    refine ⟨hcall.runLine, j + 1 + k, by omega, ?_⟩
    rw [Machine.call, hmachine, hsame, Function.iterate_add_apply Machine.turn (j + 1) k]

/-- Single-step mode runs an instruction a call, normal mode any number. From power-on with no
keys to be typed, both modes give the same registers, T-states, memory and video chip after each
of `n` instructions exactly if no interrupt that wakes the processor from a halt, among those that
normal mode runs, would wait for longer or shorter had the samples before its instruction been
dropped. -/
theorem single_step_agrees_iff {c : Config} {m : Machine} (h : PowerOn c m)
    (hkeys : m.schedule = {}) :
    let normal := m.inMode false
    let stepped := m.inMode true
    (∀ n, Machine.call^[n] stepped = Machine.turn^[n] stepped) ∧
      (∀ n, ∃ k, n ≤ k ∧ Machine.call^[n] normal = Machine.turn^[k] normal) ∧
      ∀ n, (∀ k ≤ n, SameState (Machine.turn^[k] normal) (Machine.turn^[k] stepped)) ↔
        ∀ k < n, (Machine.turn^[k] normal).WaitsAlike := by
  intro normal stepped
  have hnormal : AtCall normal := ⟨h.running, .inl h.line⟩
  have hstepped : AtCall stepped := ⟨h.running, .inl h.line⟩
  have hcalls := hstepped.calls_of_singleStep rfl
  have hcall : ∀ k, AtCall (Machine.turn^[k] stepped) := by
    intro k
    obtain ⟨hsame, hcall⟩ := hcalls k
    rwa [hsame] at hcall
  have habreast : Abreast normal stepped := ⟨rfl, rfl, ⟨rfl, rfl⟩, hkeys, hkeys⟩
  refine ⟨?_, ?_, habreast.sameState_iff hcall⟩
  · intro n
    exact (hcalls n).1
  · intro n
    exact (hnormal.calls n).2

/-- A program that switches interrupts at the end of lines on and halts. -/
def halting : Machine := (ofConfig { lineTstates := 16 }).load 0 [0xD3, 0xFE, 0x76]

/-- In the first line the interrupt waits one T-state, but none in single-step mode. -/
theorem halting_comes_apart :
    ¬∀ k ≤ 3, SameState (Machine.turn^[k] (halting.inMode false))
      (Machine.turn^[k] (halting.inMode true)) := by
  have hpower : PowerOn { lineTstates := 16 } halting := (powerOn_ofConfig _).load 0 _
  have hagree := (single_step_agrees_iff hpower rfl).2.2 3
  have hdiffer : ¬(Machine.turn^[2] (halting.inMode false)).WaitsAlike := by decide +kernel
  rw [hagree]
  intro hwait
  exact hdiffer (hwait 2 (by decide))

end Machine
end Zx81
