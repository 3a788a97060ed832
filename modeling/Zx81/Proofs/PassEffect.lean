import Zx81.Proofs.BoardCycle
import Zx81.Proofs.LineDrawing
import Zx81.Proofs.RegisterFrame

namespace Zx81

open Video (Ula Scanline PortEvent ShiftRegister)
open Z80 (BusCycle CycleKind Shape Cpu Stepped Core Built)

/-- Without opcodes and ports: cycles that the video chip does not see. -/
def Z80.Shape.quiet (s : Shape) : Prop :=
  s.count .fetch = 0 ∧ s.count .input = 0 ∧ s.count .output = 0

theorem Board.ula_run_quiet (c : BusCycle) (elapsed : Nat) (b : Board)
    (h : Shape.quiet [c.kind]) : (c.run (elapsed, b)).2.2.ula = b.ula := by
  cases c with
  | write a v => exact ula_write a v b
  | read | internal => rfl
  | fetch | input | output => simp [Shape.quiet, BusCycle.kind] at h

theorem Board.ula_runAll_quiet (cs : List BusCycle) (elapsed : Nat) (b : Board)
    (h : Shape.quiet (cs.map BusCycle.kind)) :
    (BusCycle.runAll cs (elapsed, b)).2.ula = b.ula := by
  induction cs generalizing elapsed b with
  | nil => rfl
  | cons c cs ih =>
    have hkinds : (c :: cs).map BusCycle.kind = [c.kind] ++ cs.map BusCycle.kind := rfl
    simp only [hkinds, Shape.quiet, List.count_append, Nat.add_eq_zero_iff] at h
    obtain ⟨⟨hf, hfs⟩, ⟨hi, his⟩, ho, hos⟩ := h
    rw [BusCycle.runAll_cons, ih _ _ ⟨hfs, his, hos⟩, ula_run_quiet c elapsed b ⟨hf, hi, ho⟩]

namespace Z80

/-- A program of quiet cycles takes the T-states it asks for and leaves the video chip alone. -/
theorem Built.quiet {holds : Bool} {p : Program Unit} {S : List Shape} (h : Built holds p S)
    (hquiet : ∀ s ∈ S, s.quiet) (s : Core Board) :
    (∃ shape ∈ S, (p Board s).2.elapsed = s.elapsed + shape.tstates) ∧
      (p Board s).2.bus.ula = s.bus.ula := by
  obtain ⟨cs, hcs, hrun⟩ := h.runs s
  have helapsed : (p Board s).2.elapsed = _ := congrArg Prod.fst hrun
  have hbus : (p Board s).2.bus = _ := congrArg Prod.snd hrun
  refine ⟨⟨_, hcs, ?_⟩, ?_⟩
  · exact helapsed.trans (Board.runAll_board cs s.elapsed s.bus).1
  · rw [hbus, Board.ula_runAll_quiet cs s.elapsed s.bus (hquiet _ hcs)]

theorem interruptShapes_bounds : ∀ s ∈ interruptShapes, s.tstates ≤ 19 ∧ s.quiet := by
  unfold Shape.quiet
  decide

theorem nmiShape_quiet : nmiShape.tstates = 11 ∧ nmiShape.quiet := by
  unfold Shape.quiet
  decide

namespace Cpu

variable (cpu : Cpu) (b : Board)

/-- An accepted interrupt does not let another in. -/
theorem interrupt_board (h : cpu.accepts) :
    (cpu.interrupt b).tstates ≤ 19 ∧
      (cpu.interrupt b).cpu.ticks = cpu.ticks + (cpu.interrupt b).tstates ∧
      (cpu.interrupt b).cpu.accepts = false ∧ (cpu.interrupt b).bus.ula = b.ula := by
  have hquiet := Built.acceptInterrupt.quiet (fun s hs => (interruptShapes_bounds s hs).2)
    ⟨cpu.regs, 0, cpu.holdOff, b⟩
  obtain ⟨⟨shape, hshape, htime⟩, hula⟩ := hquiet
  have hiff := iff1_acceptInterrupt (⟨cpu.regs, 0, cpu.holdOff, b⟩ : Core Board)
  rw [interrupt, if_pos h, run_eq_settle]
  refine ⟨?_, rfl, ?_, hula⟩
  · change (acceptInterrupt _).2.elapsed ≤ 19
    rw [htime, Nat.zero_add]
    exact (interruptShapes_bounds shape hshape).1
  · change ((acceptInterrupt _).2.regs.iff1 && _) = false
    rw [hiff, Bool.false_and]

/-- The time of a non-maskable interrupt, the wait that leaves a halt included. -/
theorem nmi_board (haltWait : Nat) :
    (cpu.nmi b haltWait).tstates = (if cpu.regs.halted then haltWait else 0) + 11 ∧
      (cpu.nmi b haltWait).cpu.ticks = cpu.ticks + (cpu.nmi b haltWait).tstates ∧
      (cpu.nmi b haltWait).bus.ula = b.ula := by
  have hquiet := Built.acceptNmi.quiet (by simpa using nmiShape_quiet.2)
    ⟨cpu.regs, (Request.nmi haltWait).start cpu, cpu.holdOff, b⟩
  obtain ⟨⟨shape, hshape, htime⟩, hula⟩ := hquiet
  obtain rfl := List.mem_singleton.mp hshape
  have hrun := Request.nmi_run haltWait cpu b
  change cpu.nmi b haltWait = _ at hrun
  rw [hrun]
  refine ⟨?_, rfl, hula⟩
  rw [Core.settle, htime, nmiShape_quiet.1]
  rfl

end Cpu
end Z80

theorem Loading.ticks_run (l : Loading) : l.run.2.cpu.ticks = l.cpu.ticks := by
  obtain ⟨cpu, memory, tape⟩ := l
  simp only [run]
  split
  · rfl
  · rfl

namespace Engine

variable (c : Config) (e : Engine) (line : Scanline)

/-- The next instruction without the interrupts after it, and its time. -/
def stepped (e : Engine) : Nat × Engine :=
  (e.mapBoard (·.mapUla (·.clearEvent))).load.onBoard Cpu.step

theorem runInstruction_eq : e.runInstruction c =
    (e.stepped.1 + (e.stepped.2.deliver c e.stepped.1).1,
      (e.stepped.2.deliver c e.stepped.1).2) := rfl

/-- The accesses of the instruction that is about to run. -/
def accesses (e : Engine) : List BusEvent :=
  let e := (e.mapBoard (·.mapUla (·.clearEvent))).load
  (e.cpu.step (Traced.mk e.board #[])).bus.events.toList

theorem load_frame : e.load.cpu.ticks = e.cpu.ticks ∧ e.load.board.ula = e.board.ula :=
  ⟨(Loading.mk e.cpu e.board.memory e.tape).ticks_run, rfl⟩

/-- An instruction takes a time within bounds and leaves its port access on the chip. -/
theorem step_effect (h : e.board.ula.event = none) :
    ∃ t e' shift event, e.onBoard Cpu.step = (t, e') ∧ 4 ≤ t ∧ t ≤ 23 ∧
      e'.cpu.ticks = e.cpu.ticks + t ∧ e'.board.ula = { e.board.ula with shift, event } ∧
      ∀ port, event = some port ↔
        ∃ access ∈ (e.cpu.step (Traced.mk e.board #[])).bus.events.toList,
          access.portEvent? = some port := by
  obtain ⟨cs, hcs, hrun, htrace⟩ := e.cpu.step_recorded e.board
  obtain ⟨helapsed, shift, hula⟩ := Board.runAll_board cs 0 e.board
  obtain ⟨⟨hlow, hhigh⟩, -, -, hports⟩ := Z80.stepShapes_bounds _ hcs
  have htime : (e.cpu.step e.board).tstates = Shape.tstates (cs.map BusCycle.kind) := by
    rw [← Nat.zero_add (Shape.tstates _), ← helapsed, ← hrun]
  have hchip : (e.cpu.step e.board).bus.ula =
      { e.board.ula with shift, event := lastPortEvent none cs } := by
    rw [← h, ← hula, ← hrun]
  refine ⟨_, _, shift, lastPortEvent none cs, rfl, ?_, ?_, rfl, hchip, ?_⟩
  · rwa [← htime] at hlow
  · rwa [← htime] at hhigh
  · intro port
    rw [htrace]
    exact lastPortEvent_eq_some_iff (0, e.board) hports port

/-- A request for an interrupt that is not accepted changes nothing, and after one that is the
next is not. -/
theorem interruptIf_effect (due : Bool) :
    ∃ t e', e.interruptIf due = (t, e') ∧ t ≤ 19 ∧ e'.cpu.ticks = e.cpu.ticks + t ∧
      e'.board.ula = e.board.ula ∧ (e.cpu.accepts = false → t = 0) ∧
      (t = 0 ∨ e'.cpu.accepts = false) := by
  cases due with
  | false => exact ⟨0, e, rfl, Nat.zero_le _, rfl, rfl, fun _ => rfl, .inl rfl⟩
  | true =>
    by_cases h : e.cpu.accepts
    · obtain ⟨htime, hticks, hshut, hula⟩ := e.cpu.interrupt_board e.board h
      exact ⟨_, _, rfl, htime, hticks, hula, fun hnot => absurd h (by simp [hnot]), .inr hshut⟩
    · have hidle : e.onBoard Cpu.interrupt = (0, e) := by
        simp only [onBoard, Cpu.interrupt, if_neg h]
      exact ⟨0, e, hidle, Nat.zero_le _, rfl, rfl, fun _ => rfl, .inl rfl⟩

theorem deliver_effect (tstates : Nat) :
    ∃ t e', e.deliver c tstates = (t, e') ∧ t ≤ 19 ∧ e'.cpu.ticks = e.cpu.ticks + t ∧
      e'.board.ula = e.board.ula := by
  obtain ⟨t₁, e₁, h₁, hle₁, hticks₁, hula₁, -, hshut⟩ :=
    e.interruptIf_effect (e.frameInterruptDue c tstates)
  obtain ⟨t₂, e₂, h₂, hle₂, hticks₂, hula₂, hidle, -⟩ :=
    e₁.interruptIf_effect e₁.lineInterruptDue
  refine ⟨t₁ + t₂, e₂.advance c (tstates + (t₁ + t₂)), ?_, ?_, ?_, hula₂.trans hula₁⟩
  · simp only [deliver, h₁, h₂]
  · -- the second is accepted only if the first was not
    rcases hshut with hzero | hshut
    · omega
    · have := hidle hshut
      omega
  · change e₂.cpu.ticks = _
    rw [hticks₂, hticks₁, Nat.add_assoc]

theorem runInstruction_effect :
    ∃ t e' shift event, e.runInstruction c = (t, e') ∧ 4 ≤ t ∧ t ≤ 42 ∧
      e'.cpu.ticks = e.cpu.ticks + t ∧ e'.board.ula = { e.board.ula with shift, event } ∧
      ∀ port, event = some port ↔ ∃ access ∈ e.accesses, access.portEvent? = some port := by
  obtain ⟨hticks₀, hula₀⟩ := (e.mapBoard (·.mapUla (·.clearEvent))).load_frame
  obtain ⟨t, e₁, shift, event, hstep, hlow, hhigh, hticks₁, hula₁, hevent⟩ :=
    (e.mapBoard (·.mapUla (·.clearEvent))).load.step_effect (congrArg Ula.event hula₀)
  obtain ⟨taken, e₂, hdeliver, hle, hticks₂, hula₂⟩ := e₁.deliver_effect c t
  refine ⟨t + taken, e₂, shift, event, ?_, by omega, by omega, ?_, ?_, hevent⟩
  · simp only [runInstruction, hstep, hdeliver]
  · rw [hticks₂, hticks₁, hticks₀, Nat.add_assoc]
    rfl
  · rw [hula₂, hula₁, hula₀]
    rfl

theorem drawInstruction_eq (tstates : Nat) :
    e.drawInstruction tstates line = e.drawLine (Ula.draw tstates) line := rfl

theorem drawLine_effect (f : Ula → Scanline → Ula × Scanline) :
    ∃ e' line', e.drawLine f line = (e', line') ∧ e'.cpu = e.cpu ∧
      (e'.board.ula, line') = f e.board.ula line :=
  ⟨_, _, rfl, rfl, rfl⟩

/-- The wait of a non-maskable interrupt that wakes the processor. -/
theorem alignment_le (position : Nat) : Ula.alignment position ≤ 3 := by
  unfold Ula.alignment
  omega

/-- The interrupt at the end of a line leaves the video chip charged with its time. -/
theorem lineNmi_effect :
    ∃ n e', e.lineNmi line = (n, e') ∧ n ≤ 14 ∧ (n ≠ 0 → e.board.ula.nmi) ∧
      e'.cpu.ticks = e.cpu.ticks + n ∧ e'.board.ula = e.board.ula.charge n := by
  by_cases hnmi : e.board.ula.nmi
  · have hbound := e.cpu.nmi_board e.board (e.board.ula.haltWait line)
    have hrun : e.lineNmi line =
        let s := e.cpu.nmi e.board (e.board.ula.haltWait line)
        (s.tstates, ⟨s.cpu, s.bus.mapUla (·.charge s.tstates), e.tape, e.position⟩) := if_pos hnmi
    rw [hrun]
    revert hbound
    generalize e.cpu.nmi e.board (e.board.ula.haltWait line) = stepped
    rintro ⟨htime, hticks, hula⟩
    refine ⟨_, _, rfl, ?_, fun _ => hnmi, hticks, congrArg (Ula.charge · stepped.tstates) hula⟩
    have hwait := alignment_le (line.length / 2 % e.board.ula.lineLength)
    change stepped.tstates = (if _ then Ula.alignment _ else 0) + 11 at htime
    rw [htime]
    split <;> omega
  · refine ⟨0, e, if_neg hnmi, Nat.zero_le _, fun h => absurd rfl h, rfl, ?_⟩
    have hstep : Int32.ofNat 0 = 0 := rfl
    rw [Ula.charge, hstep, Int32.sub_zero]

/-- The end of a turn closes a line that is over, and takes time only for an interrupt. -/
theorem finishLine_effect (t : Nat) :
    ∃ n e' line', finishLine t e line = ⟨t + n, e', line'⟩ ∧ n ≤ 14 ∧
      (n ≠ 0 → e.board.ula.expired ∧ e.board.ula.nmi) ∧ e'.cpu.ticks = e.cpu.ticks + n ∧
      (e'.board.ula, line') = Ula.close n e.board.ula line := by
  by_cases hexpired : e.board.ula.expired
  · obtain ⟨n, e₁, hrun, hle, hnmi, hticks, hula⟩ := e.lineNmi_effect line
    obtain ⟨e₂, line₂, hdraw, hcpu, hdrawn⟩ := e₁.drawLine_effect line Ula.endLine
    refine ⟨n, e₂, line₂, ?_, hle, fun h => ⟨hexpired, hnmi h⟩, ?_, ?_⟩
    · simp only [finishLine, if_pos hexpired, hrun, hdraw]
    · rw [hcpu, hticks]
    · rw [hdrawn, hula, Ula.close, if_pos hexpired]
  · refine ⟨0, e, line, ?_, Nat.zero_le _, fun h => absurd rfl h, rfl, ?_⟩
    · simp only [finishLine, if_neg hexpired, Nat.add_zero]
    · rw [Ula.close, if_neg hexpired]

/-- What a turn of the loop does: an instruction of `t` T-states, interrupts included, leaves the
video chip as `u`, and an interrupt at the end of the line takes `n`. -/
structure Turned (e : Engine) (line : Scanline) (p : Pass) (t n : Nat) (u : Ula) : Prop where
  time : 4 ≤ t ∧ t ≤ 42
  nmiTime : n ≤ 14
  nmi : n ≠ 0 → (u.draw t line).1.expired ∧ (u.draw t line).1.nmi
  chip : ∃ shift event, u = { e.board.ula with shift, event }
  event : ∀ port, u.event = some port ↔ ∃ access ∈ e.accesses, access.portEvent? = some port
  tstates : p.tstates = t + n
  ticks : p.engine.cpu.ticks = e.cpu.ticks + (t + n)
  drawn : (p.engine.board.ula, p.line) = Ula.close n (u.draw t line).1 (u.draw t line).2

theorem pass_effect : ∃ t n u, Turned e line (e.pass c line) t n u := by
  obtain ⟨t, e₁, shift, event, hrun, hlow, hhigh, hticks₁, hula₁, hevent⟩ :=
    e.runInstruction_effect c
  obtain ⟨e₂, line₂, hdraw, hcpu, hdrawn⟩ := e₁.drawLine_effect line (Ula.draw t)
  obtain ⟨n, e₃, line₃, hfinish, hle, hnmi, hticks₃, hclose⟩ := e₂.finishLine_effect line₂ t
  have hpass : e.pass c line = ⟨t + n, e₃, line₃⟩ := by
    simp only [pass, hrun, drawInstruction_eq, hdraw, hfinish]
  have hchip : e₂.board.ula = (e₁.board.ula.draw t line).1 := congrArg Prod.fst hdrawn
  have hline : line₂ = (e₁.board.ula.draw t line).2 := congrArg Prod.snd hdrawn
  rw [hpass]
  refine ⟨t, n, e₁.board.ula,
    { time := ⟨hlow, hhigh⟩
      nmiTime := hle
      nmi := by rwa [← hchip]
      chip := ⟨shift, event, hula₁⟩
      event := fun port => by
        rw [hula₁]
        exact hevent port
      tstates := rfl
      ticks := by rw [hticks₃, hcpu, hticks₁, Nat.add_assoc]
      drawn := by rw [← hchip, ← hline, hclose] }⟩

theorem limit_le (c : Config) : limit c ≤ Scanline.cutoff := by
  unfold limit
  split <;> decide

/-- A turn that does not end the line sends eight samples at least. -/
theorem length_pass (h : lineDone c (e.pass c line).line = false) :
    line.length + 8 ≤ (e.pass c line).line.length := by
  obtain ⟨t, n, u, hturned⟩ := e.pass_effect c line
  obtain ⟨samples, hdrawn, hsize⟩ := Ula.draw_snd t u line
  have hline : (e.pass c line).line = (Ula.close n (u.draw t line).1 (u.draw t line).2).2 :=
    congrArg Prod.snd hturned.drawn
  simp only [lineDone, Bool.or_eq_false_iff, decide_eq_false_iff_not] at h
  obtain ⟨hshort, hsync⟩ := h
  -- the timer has not cut the line, since it would have left a sync
  have hlength : (e.pass c line).line.length = samples.size := by
    rcases Ula.close_snd n (u.draw t line).1 (u.draw t line).2 with hsame | hclosed
    · rw [hline, hsame, hdrawn]
      rfl
    · rw [← hline] at hclosed
      simp [Scanline.hasSync, hclosed] at hsync
  have hlimit := limit_le c
  have htime := hturned.time.1
  rw [hlength, hsize] at hshort ⊢
  simp only [Scanline.cutoff, Scanline.capacity] at hlimit hshort ⊢
  omega

end Engine
end Zx81
