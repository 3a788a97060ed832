import Zx81.Proofs.FrameClock

namespace Zx81

open Video (Ula Scanline ShiftRegister)
open Z80 (Cpu Request)

/-- Lines with the same samples and the same sync; a pulse is open in both or in neither. -/
structure PulseAlike (line line' : Scanline) : Prop where
  samples : line'.samples = line.samples
  sync : line'.sync = line.sync
  closed : line'.syncLength = 0 ↔ line.syncLength = 0

namespace PulseAlike

variable {line line' : Scanline}

theorem length (h : PulseAlike line line') : line'.length = line.length :=
  congrArg Array.size h.samples

theorem hasSync (h : PulseAlike line line') : line'.hasSync = line.hasSync := by
  rw [Scanline.hasSync, h.sync, Scanline.hasSync]

theorem lineDone (h : PulseAlike line line') (c : Config) :
    Engine.lineDone c line' = Engine.lineDone c line := by
  rw [Engine.lineDone, Engine.lineDone, h.length, h.hasSync]

end PulseAlike

namespace Video

variable {line line' : Scanline}

theorem ShiftRegister.samples_shiftOut (lit : Bool) (n : Nat) (r : ShiftRegister)
    (h : line'.samples = line.samples) :
    (shiftOut lit n r line').2.samples = (shiftOut lit n r line).2.samples := by
  induction n generalizing r line line' with
  | zero => exact h
  | succ n ih =>
    apply ih
    simp only [Scanline.push, h]

namespace Ula

theorem samples_emit (t : Nat) (u : Ula) (h : line'.samples = line.samples) :
    (u.emit line' t).2.samples = (u.emit line t).2.samples :=
  ShiftRegister.samples_shiftOut u.lit (2 * t) u.shift h

theorem draw_alike (t : Nat) (u : Ula) (h : PulseAlike line line') :
    PulseAlike (u.draw t line).2 (u.draw t line').2 := by
  have hclosed := h.closed
  rw [draw_line, draw_line, h.sync]
  refine ⟨samples_emit t u h.samples, ?_, ?_⟩
  · simp only [Nat.pos_iff_ne_zero, ne_eq, hclosed]
  · simp only
    split
    · exact hclosed
    · simp only [Scanline.longestSync]
      omega

/-- An instruction that leaves the picture dark opens a pulse where none is open. -/
theorem draw_dark {t : Nat} {u : Ula} (ht : 0 < t) (hdark : u.litAfter = false)
    (hsamples : line'.samples = line.samples) (hsync : line'.sync = line.sync) :
    PulseAlike (u.draw t line).2 (u.draw t line').2 := by
  have hup : u.lightsUp = false := by simp [lightsUp, hdark]
  rw [draw_line, draw_line, hup, hdark, hsync]
  refine ⟨samples_emit t u hsamples, ?_, ?_⟩
  · simp
  · simp only [Bool.false_eq_true, if_false, Scanline.longestSync]
    omega

theorem endLine_alike (u : Ula) (h : PulseAlike line line') :
    (u.endLine line').1 = (u.endLine line).1 ∧
      PulseAlike (u.endLine line).2 (u.endLine line').2 := by
  unfold endLine
  by_cases htimed : u.lit ∧ line.syncLength = 0
  · have htimed' : u.lit ∧ line'.syncLength = 0 := ⟨htimed.1, h.closed.mpr htimed.2⟩
    simp only [if_pos htimed, if_pos htimed']
    exact ⟨trivial, congrArg (Array.take · _) h.samples, rfl, Iff.rfl⟩
  · have htimed' : ¬(u.lit ∧ line'.syncLength = 0) := by rwa [h.closed]
    simp only [if_neg htimed, if_neg htimed']
    exact ⟨trivial, h⟩

end Ula
end Video

/-- What a request does does not hang on the count of T-states. -/
theorem Z80.Request.run_retimed (q : Request) (cpu : Cpu) (b : Board) (ticks : Nat) :
    ∃ ticks', q.run { cpu with ticks } b =
      { q.run cpu b with cpu := { (q.run cpu b).cpu with ticks := ticks' } } :=
  ⟨_, q.run_ticks cpu ticks b⟩

namespace Engine

/-- The same state of the machine but for the count of T-states. -/
def Retimed (e e' : Engine) : Prop := ∃ ticks, e' = { e with cpu := { e.cpu with ticks } }

section Retimed

variable {c : Config} {e e' : Engine} (h : Retimed e e')

include h

theorem Retimed.board : e'.board = e.board := by
  obtain ⟨ticks, rfl⟩ := h
  rfl

theorem Retimed.mapBoard (f : Board → Board) : Retimed (e.mapBoard f) (e'.mapBoard f) := by
  obtain ⟨ticks, rfl⟩ := h
  exact ⟨ticks, rfl⟩

theorem Retimed.load : Retimed e.load e'.load := by
  obtain ⟨ticks, rfl⟩ := h
  simp only [Engine.load, Loading.run]
  split
  · exact ⟨ticks, rfl⟩
  · exact ⟨ticks, rfl⟩

theorem Retimed.onBoard (q : Request) : (e'.onBoard q.run).1 = (e.onBoard q.run).1 ∧
    Retimed (e.onBoard q.run).2 (e'.onBoard q.run).2 := by
  obtain ⟨ticks, rfl⟩ := h
  obtain ⟨ticks', hrun⟩ := q.run_retimed e.cpu e.board ticks
  simp only [Engine.onBoard, hrun]
  exact ⟨trivial, ticks', rfl⟩

theorem Retimed.interruptIf (due : Bool) : (e'.interruptIf due).1 = (e.interruptIf due).1 ∧
    Retimed (e.interruptIf due).2 (e'.interruptIf due).2 := by
  cases due with
  | false => exact ⟨rfl, h⟩
  | true => exact h.onBoard .interrupt

theorem Retimed.regs : e'.cpu.regs = e.cpu.regs := by
  obtain ⟨ticks, rfl⟩ := h
  rfl

theorem Retimed.position : e'.position = e.position := by
  obtain ⟨ticks, rfl⟩ := h
  rfl

theorem Retimed.advance (t : Nat) : Retimed (e.advance c t) (e'.advance c t) := by
  obtain ⟨ticks, rfl⟩ := h
  exact ⟨ticks, rfl⟩

theorem Retimed.deliver (t : Nat) : (e'.deliver c t).1 = (e.deliver c t).1 ∧
    Retimed (e.deliver c t).2 (e'.deliver c t).2 := by
  have hframe : e'.frameInterruptDue c t = e.frameInterruptDue c t := by
    rw [frameInterruptDue, frameInterruptDue, h.position]
  let first := e.interruptIf (e.frameInterruptDue c t)
  let first' := e'.interruptIf (e.frameInterruptDue c t)
  obtain ⟨htime, hfirst⟩ : first'.1 = first.1 ∧ Retimed first.2 first'.2 := h.interruptIf _
  have hline : first'.2.lineInterruptDue = first.2.lineInterruptDue := by
    rw [lineInterruptDue, lineInterruptDue, hfirst.regs]
  obtain ⟨htime', hsecond⟩ := hfirst.interruptIf first.2.lineInterruptDue
  simp only [Engine.deliver, hframe]
  change first'.1 + (first'.2.interruptIf first'.2.lineInterruptDue).1 = _ ∧
    Retimed _ ((first'.2.interruptIf first'.2.lineInterruptDue).2.advance c (t + (first'.1 +
      (first'.2.interruptIf first'.2.lineInterruptDue).1)))
  rw [hline, htime, htime']
  exact ⟨rfl, hsecond.advance _⟩

theorem Retimed.stepped : e'.stepped.1 = e.stepped.1 ∧ Retimed e.stepped.2 e'.stepped.2 :=
  (h.mapBoard _).load.onBoard .step

theorem Retimed.runInstruction : (e'.runInstruction c).1 = (e.runInstruction c).1 ∧
    Retimed (e.runInstruction c).2 (e'.runInstruction c).2 := by
  obtain ⟨htime, hstepped⟩ := h.stepped
  obtain ⟨htaken, hdelivered⟩ := hstepped.deliver (c := c) e.stepped.1
  rw [runInstruction_eq, runInstruction_eq, htime, htaken]
  exact ⟨rfl, hdelivered⟩

/-- A change of the chip that does not hang on the line. -/
theorem Retimed.drawLine {line line' : Scanline} {f : Ula → Scanline → Ula × Scanline}
    (hchip : (f e.board.ula line').1 = (f e.board.ula line).1) :
    Retimed (e.drawLine f line).1 (e'.drawLine f line').1 ∧
      (e'.drawLine f line').2 = (f e.board.ula line').2 := by
  obtain ⟨ticks, rfl⟩ := h
  refine ⟨⟨ticks, ?_⟩, rfl⟩
  rw [← e.drawLine_fst_congr hchip]
  rfl

theorem Retimed.drawInstruction (t : Nat) (line line' : Scanline) :
    Retimed (e.drawInstruction t line).1 (e'.drawInstruction t line').1 ∧
      (e'.drawInstruction t line').2 = (e.board.ula.draw t line').2 := by
  rw [drawInstruction_eq, drawInstruction_eq]
  exact h.drawLine (Ula.draw_fst_congr t e.board.ula line line')

theorem Retimed.lineNmi {line line' : Scanline} (hlength : line'.length = line.length) :
    (e'.lineNmi line').1 = (e.lineNmi line).1 ∧
      Retimed (e.lineNmi line).2 (e'.lineNmi line').2 := by
  have hwait : e'.board.ula.haltWait line' = e.board.ula.haltWait line := by
    rw [h.board, Ula.haltWait, hlength, Ula.haltWait]
  have hnmi (e : Engine) (line : Scanline) : e.lineNmi line = if e.board.ula.nmi then
      let answer := e.onBoard (Request.nmi (e.board.ula.haltWait line)).run
      (answer.1, answer.2.mapBoard (·.mapUla (·.charge answer.1)))
    else (0, e) := rfl
  obtain ⟨htime, hrun⟩ := h.onBoard (.nmi (e.board.ula.haltWait line))
  rw [hnmi, hnmi, hwait, h.board]
  split
  · simp only [htime]
    exact ⟨trivial, hrun.mapBoard _⟩
  · exact ⟨rfl, h⟩

end Retimed

/-- Turns that take as long and leave machines and lines that run alike. -/
structure Pass.Alike (p p' : Pass) : Prop where
  tstates : p'.tstates = p.tstates
  engine : Retimed p.engine p'.engine
  line : PulseAlike p.line p'.line

section Alike

variable {c : Config} {e e' : Engine} {line line' : Scanline} (h : Retimed e e')

section Retimed

include h

theorem time_finishLine_alike (hlength : line'.length = line.length) (t : Nat) :
    (finishLine t e' line').tstates = (finishLine t e line).tstates := by
  rw [tstates_finishLine, tstates_finishLine, h.board, (h.lineNmi hlength).1]

theorem finishLine_alike (hline : PulseAlike line line') (t : Nat) :
    Pass.Alike (finishLine t e line) (finishLine t e' line') := by
  obtain ⟨-, hnmi⟩ := h.lineNmi hline.length
  obtain ⟨hengine, hended⟩ : Retimed (finishLine t e line).engine (finishLine t e' line').engine ∧
      PulseAlike (finishLine t e line).line (finishLine t e' line').line := by
    unfold finishLine
    rw [h.board]
    split
    · obtain ⟨hchip, hclosed⟩ := (e.lineNmi line).2.board.ula.endLine_alike hline
      obtain ⟨hengine, hended⟩ := hnmi.drawLine hchip
      rw [← hended] at hclosed
      exact ⟨hengine, hclosed⟩
    · exact ⟨h, hline⟩
  exact ⟨time_finishLine_alike h hline.length t, hengine, hended⟩

/-- The time of a turn does not hang on the pulse. -/
theorem time_pass_alike (hlength : line'.length = line.length) :
    (e'.pass c line').tstates = (e.pass c line).tstates := by
  obtain ⟨htime, hran⟩ := h.runInstruction (c := c)
  obtain ⟨hengine, hdrawn⟩ := hran.drawInstruction (e.runInstruction c).1 line line'
  simp only [pass, htime]
  apply time_finishLine_alike hengine
  rw [hdrawn]
  exact Ula.length_draw_congr _ _ hlength

/-- A turn leaves alike what its instruction does when it is drawn. -/
theorem pass_alike_of_draw
    (hdraw : let ran := e.runInstruction c
      PulseAlike (ran.2.board.ula.draw ran.1 line).2 (ran.2.board.ula.draw ran.1 line').2) :
    Pass.Alike (e.pass c line) (e'.pass c line') := by
  obtain ⟨htime, hran⟩ := h.runInstruction (c := c)
  obtain ⟨hengine, hdrawn⟩ := hran.drawInstruction (e.runInstruction c).1 line line'
  simp only [pass, htime]
  apply finishLine_alike hengine
  rw [hdrawn]
  exact hdraw

theorem pass_alike (hline : PulseAlike line line') :
    Pass.Alike (e.pass c line) (e'.pass c line') :=
  pass_alike_of_draw h (Ula.draw_alike _ _ hline)

end Retimed

/-- The loop goes on alike from turns that leave machines and lines alike. -/
theorem passes_alike (h : Pass.Alike (e.pass c line) (e'.pass c line')) (bound total : Nat) :
    Pass.Alike (passes c (bound + 1) total e line) (passes c (bound + 1) total e' line') := by
  obtain ⟨htime, hengine, hline⟩ := h
  induction bound generalizing total e e' line line' with
  | zero =>
    simp only [passes, htime, ite_self]
    exact ⟨rfl, hengine, hline⟩
  | succ bound ih =>
    obtain ⟨htime', hengine', hline'⟩ := pass_alike (c := c) hengine hline
    rw [passes, passes]
    simp only [hline.lineDone, htime]
    split
    · exact ⟨rfl, hengine, hline⟩
    · exact ih _ htime' hengine' hline'

end Alike
end Engine

namespace Machine

/-- Two running machines of one configuration, with no keys to be typed. -/
structure Comparable (m m' : Machine) : Prop where
  config : m'.config = m.config
  running : m.stopped = false ∧ m'.stopped = false
  schedule : m.schedule = {} ∧ m'.schedule = {}

/-- Two machines that differ in the count of T-states, in how long an open pulse is, and in their
pictures. -/
structure Alongside (m m' : Machine) : Prop extends Comparable m m' where
  engine : Engine.Retimed m.engine m'.engine
  line : PulseAlike m.line m'.line

/-- A call for a line that takes as long on two machines, ends with the same sync and leaves the
same registers. -/
structure SameCall (m m' : Machine) : Prop where
  tstates : m'.runLine.1.tstates = m.runLine.1.tstates
  sync : m'.runLine.1.sync = m.runLine.1.sync
  regs : m'.call.engine.cpu.regs = m.call.engine.cpu.regs

variable {m m' : Machine}

theorem Alongside.openLine (h : Alongside m m') :
    Engine.Retimed m.openLine.engine m'.openLine.engine ∧
      PulseAlike m.openLine.line m'.openLine.line := by
  have hsync : m'.line.clearSamples.hasSync = m.line.clearSamples.hasSync := h.line.hasSync
  unfold Machine.openLine Engine.beginLine
  simp only [hsync]
  split
  · have hchip : (m.engine.board.ula.carryIn m'.line.clearSamples.resetSync).1 =
        (m.engine.board.ula.carryIn m.line.clearSamples.resetSync).1 := rfl
    obtain ⟨hengine, hbegun⟩ := h.engine.drawLine hchip
    refine ⟨hengine, ?_⟩
    rw [hbegun]
    exact ⟨rfl, rfl, Iff.rfl⟩
  · exact ⟨h.engine, rfl, h.line.sync, h.line.closed⟩

theorem Alongside.closeLine (h : Alongside m m') : Alongside m.closeLine m'.closeLine := by
  obtain ⟨hengine, hschedule⟩ := present_engine (m.restart_schedule.trans h.schedule.1)
  obtain ⟨hengine', hschedule'⟩ := present_engine (m'.restart_schedule.trans h.schedule.2)
  obtain ⟨hconfig, hline, hrunning, -⟩ := m.closeLine_frame
  obtain ⟨hconfig', hline', hrunning', -⟩ := m'.closeLine_frame
  refine ⟨⟨?_, ?_, hschedule, hschedule'⟩, ?_, ?_⟩
  · rw [hconfig, hconfig', h.config]
  · rw [hrunning, hrunning']
    exact h.running
  · rw [Machine.closeLine, Machine.closeLine, hengine, hengine', restart_engine, restart_engine,
      h.line.sync]
    split
    · exact h.engine.mapBoard _
    · exact h.engine
  · rw [hline, hline']
    exact h.line

/-- Machines whose first turns in a call are alike do not come apart in the call. -/
theorem Comparable.call_of_pass (h : Comparable m m')
    (hpass : Engine.Pass.Alike (m.openLine.engine.pass m.config m.openLine.line)
      (m'.openLine.engine.pass m.config m'.openLine.line)) :
    SameCall m m' ∧ Alongside m.call m'.call := by
  obtain ⟨bound, hbound⟩ : ∃ bound, Scanline.cutoff = bound + 1 := ⟨3999, rfl⟩
  have hpasses := Engine.passes_alike hpass bound 0
  rw [← hbound] at hpasses
  rcases hrun : Engine.passes m.config Scanline.cutoff 0 m.openLine.engine m.openLine.line
    with ⟨t, engine, line⟩
  rcases hrun' : Engine.passes m.config Scanline.cutoff 0 m'.openLine.engine m'.openLine.line
    with ⟨t', engine', line'⟩
  rw [hrun, hrun'] at hpasses
  obtain ⟨hsame, hengine, hline⟩ := hpasses
  rw [← h.config] at hrun'
  obtain ⟨htime, hsync, hcall⟩ := runLine_of_passes h.running.1 hrun
  obtain ⟨htime', hsync', hcall'⟩ := runLine_of_passes h.running.2 hrun'
  have hclosed : Alongside (Machine.closeLine { m with engine, line })
      (Machine.closeLine { m' with engine := engine', line := line' }) :=
    Alongside.closeLine ⟨⟨h.config, h.running, h.schedule⟩, hengine, hline⟩
  rw [← hcall, ← hcall'] at hclosed
  refine ⟨⟨?_, ?_, hclosed.engine.regs⟩, hclosed⟩
  · rw [htime, htime']
    exact hsame
  · rw [hsync, hsync']
    exact hline.sync

theorem Alongside.runLine (h : Alongside m m') : SameCall m m' ∧ Alongside m.call m'.call := by
  obtain ⟨hengine, hline⟩ := h.openLine
  exact h.call_of_pass (Engine.pass_alike hengine hline)

/-- Machines that run alongside each other do not come apart. -/
theorem Alongside.calls (h : Alongside m m') (n : Nat) :
    SameCall (call^[n] m) (call^[n] m') := by
  induction n generalizing m m' with
  | zero => exact h.runLine.1
  | succ n ih => exact ih h.runLine.2

end Machine
end Zx81
