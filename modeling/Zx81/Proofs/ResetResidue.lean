import Zx81.Proofs.Agreement
import Zx81.Proofs.Construction
import Zx81.Proofs.VerticalPulse

namespace Zx81

open Video (Ula Scanline)

/-- In a dark picture an instruction that does not write to a port leaves it dark. -/
theorem Engine.dark_runInstruction {e : Engine} (c : Config) (hdark : e.board.ula.lit = false)
    (hquiet : ∀ port v, BusEvent.output port v ∉ e.accesses) :
    0 < (e.runInstruction c).1 ∧ (e.runInstruction c).2.board.ula.litAfter = false := by
  obtain ⟨t, e', shift, event, hrun, hlow, -, -, hula, hevent⟩ := e.runInstruction_effect c
  rw [hrun]
  refine ⟨by omega, ?_⟩
  by_contra hlit
  have hup : e'.board.ula.lightsUp := by
    have hbefore : e'.board.ula.lit = false := by rw [hula, hdark]
    simpa [Ula.lightsUp, hbefore] using hlit
  obtain ⟨port, hport⟩ := Ula.event_of_lightsUp hup
  rw [hula] at hport
  obtain ⟨access, hmem, haccess⟩ := (hevent _).mp hport
  obtain ⟨v, rfl⟩ := BusEvent.portEvent?_eq_output.mp haccess
  exact hquiet port v hmem

namespace Machine

/-- The machine with the contents of another's memory, its tape and its held keys. -/
def takeOver (m other : Machine) : Machine :=
  let m := m.mapMemory (·.mapRam fun _ => other.engine.board.memory.ram)
  (m.mapKeyboard fun _ => other.engine.board.keyboard).insertTape other.engine.tape

/-- The video chip is as after power-on. -/
def Blank (m : Machine) : Prop := m.ula = m.ula.reset

section Blank

variable {m : Machine} (h : Blank m)

include h

theorem Blank.lit : m.ula.lit = false := by rw [h, Ula.reset]

/-- A call begins with nothing but the pulse so far. -/
theorem Blank.openLine : m.openLine.engine = m.engine ∧
    m.openLine.line = ⟨#[], m.pulse, .absent⟩ := by
  obtain ⟨config, ⟨cpu, ⟨memory, ula, keyboard, qs, wiring⟩, tape, position⟩, line, raster,
    schedule, stopped, frames⟩ := m
  obtain ⟨lineLength, rfl⟩ : ∃ lineLength, ula = { lineLength } := ⟨_, h⟩
  have hcleared : line.clearSamples.hasSync = line.hasSync := rfl
  unfold Machine.openLine Engine.beginLine pulse
  simp only [hcleared]
  by_cases hsync : line.hasSync
  · simp only [if_pos hsync]
    refine ⟨rfl, ?_⟩
    simp [Engine.drawLine, Board.drawLine, Ula.carryIn, Scanline.fill, Scanline.resetSync,
      Scanline.clearSamples]
  · have habsent : line.sync = .absent := by simpa [Scanline.hasSync] using hsync
    simp only [if_neg hsync]
    exact ⟨trivial, congrArg (Scanline.mk _ _) habsent⟩

theorem Blank.ready_openLine : m.openLine.ready = m.openLine := by
  apply ready_of_not_lineDone
  rw [lineDone, h.openLine.2]
  unfold Engine.lineDone Engine.limit
  split <;> rfl

theorem Blank.ready : m.ready.engine = m.engine := by
  unfold Machine.ready
  split
  · exact h.openLine.1
  · rfl

/-- The first turn of a call ends a pulse if it writes to a port. -/
theorem Blank.vertical_pass :
    m.openLine.pass.line.sync = .vertical ↔ Outputs m ∧ 0 < m.pulse := by
  obtain ⟨hengine, hline⟩ := h.openLine
  have hdark : m.openLine.ula.lit = false := by
    rw [ula, hengine]
    exact h.lit
  have hnmi : m.openLine.ula.nmi = false := by
    rw [ula, hengine]
    exact (congrArg Ula.nmi h).trans rfl
  have hsteady : Steady m.openLine := ⟨by simp [hnmi], by simp [hdark]⟩
  have hpulse : m.openLine.pulse = m.pulse := by
    rw [pulse, hline]
    rfl
  have houtputs : Outputs m.openLine ↔ Outputs m := by
    rw [Outputs, Outputs, accesses, accesses, h.ready_openLine, hengine, h.ready]
  rw [← houtputs, ← hpulse, ← hsteady.vertical_turn.1, line_turn, h.ready_openLine]

/-- An output that ends a pulse ends the call too. -/
theorem Blank.runLine_of_outputs (hrunning : m.stopped = false)
    (hpulse : Outputs m ∧ 0 < m.pulse) :
    m.runLine.1.tstates = m.openLine.passTime ∧ m.runLine.1.sync = .vertical := by
  have hvertical := h.vertical_pass.mpr hpulse
  have hdone : m.openLine.pass.lineDone := by
    apply lineDone_of_hasSync
    rw [Scanline.hasSync, hvertical]
    rfl
  have hpasses := m.openLine.passes_succ 3999 0
  rw [if_pos hdone, Nat.zero_add] at hpasses
  obtain ⟨htime, hsync, -⟩ := runLine_of_passes hrunning hpasses
  exact ⟨htime, hsync.trans hvertical⟩

end Blank

/-- A machine that has been reset and one that takes over from it differ in the count of T-states
alone, but for the line. -/
theorem retimed_takeOver {c : Config} {m : Machine} (h : MadeFrom c m) :
    Engine.Retimed m.reset.engine ((ofConfig c).takeOver m).engine := by
  obtain ⟨-, hwiring, hqs, hlength, ram, hmemory⟩ := h
  have hboard : ((ofConfig c).takeOver m).engine.board = m.reset.engine.board := by
    change Board.mk { Memory.ofConfig c with ram := m.engine.board.memory.ram }
        { lineLength := c.lineTstates } m.engine.board.keyboard {}
        ⟨c.displayStart, c.charGenerator, c.ntsc⟩ =
      Board.mk m.engine.board.memory m.engine.board.ula.reset m.engine.board.keyboard
        m.engine.board.qs m.engine.board.wiring
    rw [hmemory, hwiring, hqs, Ula.reset, hlength]
  refine ⟨0, ?_⟩
  rw [← hboard]
  rfl

section Reset

variable {m m' : Machine} (h : Comparable m m') (hengine : Engine.Retimed m.engine m'.engine)
  (hblank : Blank m) (hnew : m'.line = {})

include hengine hblank

theorem Blank.retimed : Blank m' := by
  rw [Blank, ula, hengine.board]
  exact hblank

include h hnew

/-- Without a pulse for the first instruction to end, the machines do not come apart. -/
theorem Comparable.calls_of_blank (hpulse : ¬(Outputs m ∧ 0 < m.pulse)) (n : Nat) :
    SameCall (call^[n] m) (call^[n] m') := by
  obtain ⟨hopen, hline⟩ := hblank.openLine
  obtain ⟨hopen', hline'⟩ := (hblank.retimed hengine).openLine
  have hclosed' : m'.pulse = 0 := by
    rw [pulse, hnew]
    rfl
  have hpass : Engine.Pass.Alike (m.openLine.engine.pass m.config m.openLine.line)
      (m'.openLine.engine.pass m.config m'.openLine.line) := by
    rw [hopen, hline, hopen', hline', hclosed']
    by_cases hclosed : m.pulse = 0
    · rw [hclosed]
      exact Engine.pass_alike hengine ⟨rfl, rfl, Iff.rfl⟩
    · have hquiet : ∀ port v, BusEvent.output port v ∉ m.engine.accesses := by
        intro port v hmem
        rw [← hblank.ready] at hmem
        exact hpulse ⟨⟨port, v, hmem⟩, Nat.pos_of_ne_zero hclosed⟩
      obtain ⟨htime, hdark⟩ := Engine.dark_runInstruction m.config hblank.lit hquiet
      exact Engine.pass_alike_of_draw hengine (Ula.draw_dark htime hdark rfl rfl)
  obtain ⟨hfirst, hafter⟩ := h.call_of_pass hpass
  cases n with
  | zero => exact hfirst
  | succ n => exact hafter.calls n

/-- Without the pulse to end, the call takes longer than that or ends without a vertical sync. -/
theorem Comparable.comes_apart (hpulse : Outputs m ∧ 0 < m.pulse) : ¬SameCall m m' := by
  intro hsame
  obtain ⟨htime, hvertical⟩ := hblank.runLine_of_outputs h.running.1 hpulse
  have hcall : AtCall m' := ⟨h.running.2, .inl hnew⟩
  obtain ⟨k, -, htime', hsync', -⟩ := runLine_eq_turns hcall
  cases k with
  | zero =>
    have hpulse' : Outputs m' ∧ 0 < m'.pulse := by
      rw [← (hblank.retimed hengine).vertical_pass, ← hcall.ready_eq, ← line_turn, ← hvertical,
        ← hsame.sync, hsync']
      rfl
    rw [pulse, hnew] at hpulse'
    exact absurd hpulse'.2 (Nat.lt_irrefl 0)
  | succ k =>
    have hturn : m'.turnTime = m.openLine.passTime := by
      obtain ⟨hopen, hline⟩ := hblank.openLine
      obtain ⟨hopen', hline'⟩ := (hblank.retimed hengine).openLine
      rw [turnTime, hcall.ready_eq, passTime, passTime, hopen, hline, hopen', hline']
      change (m'.engine.pass m'.config _).tstates = (m.engine.pass m.config _).tstates
      rw [h.config]
      exact Engine.time_pass_alike hengine rfl
    have hsecond : 0 < (Machine.turn^[0 + 1] m').turnTime := (Machine.turn^[1] m').turnTime_pos
    have hsame' := hsame.tstates
    rw [htime, htime', Finset.sum_range_succ', Finset.sum_range_succ', Function.iterate_zero_apply,
      hturn] at hsame'
    omega

end Reset

/-- A reset leaves no residue but an open pulse. A machine of any configuration without a board
for its own character set is reset, whatever it has run and whatever a host has done with it. The
calls on it take as long as those on a new machine that takes over its memory, tape and held keys,
end with the same syncs and leave the same registers, unless a pulse is open at the reset and the
first instruction writes to a port. That instruction ends the pulse and the first call, in which
the machines come apart. -/
theorem reset_leaves_pulse {c : Config} {fresh : Machine} (hnew : new c = .ok fresh)
    (hqs : c.charGenerator ≠ .qs) (ram : Ram) (actions : List Action) :
    let m := actions.foldl perform (fresh.mapMemory (·.mapRam fun _ => ram))
    m.stopped = false → m.schedule = {} →
      (Outputs m.reset ∧ 0 < m.pulse →
        m.reset.runLine.1.sync = .vertical ∧ ¬SameCall m.reset (fresh.takeOver m)) ∧
      (¬(Outputs m.reset ∧ 0 < m.pulse) →
        ∀ n, SameCall (call^[n] m.reset) (call^[n] (fresh.takeOver m))) := by
  intro m hrunning hschedule
  obtain rfl := eq_ofConfig_of_new hnew
  have hmade : MadeFrom c m := (madeFrom_loaded c ram).performAll hqs actions
  have hpair : Comparable m.reset ((ofConfig c).takeOver m) :=
    ⟨hmade.config.symm, ⟨hrunning, rfl⟩, hschedule, rfl⟩
  have hengine := retimed_takeOver hmade
  have hblank : Blank m.reset := rfl
  constructor
  · intro hpulse
    exact ⟨(hblank.runLine_of_outputs hrunning hpulse).2,
      hpair.comes_apart hengine hblank rfl hpulse⟩
  · intro hquiet
    exact hpair.calls_of_blank hengine hblank rfl hquiet

/-- The machine after some instructions of a program that lights the picture and darkens it. -/
def darkening (n : Nat) : Machine :=
  (List.replicate n .runLine).foldl perform ((ofConfig { singleStep := true }).mapMemory
    (·.mapRam fun _ => Ram.zero.load 0 [0xD3, 0xFF, 0xDB, 0xFE]))

theorem darkening_leaves_pulse :
    let fresh := ofConfig { singleStep := true }
    (darkening 2).reset.runLine.1.sync = .vertical ∧
      ¬SameCall (darkening 2).reset (fresh.takeOver (darkening 2)) ∧
      ∀ n, SameCall (call^[n] (darkening 1).reset) (call^[n] (fresh.takeOver (darkening 1))) := by
  intro fresh
  have hnew : new { singleStep := true } = .ok fresh := rfl
  have hqs : ({ singleStep := true } : Config).charGenerator ≠ .qs := by decide
  have hopen : Outputs (darkening 2).reset ∧ 0 < (darkening 2).pulse :=
    ⟨⟨0x00FF, 0x00, by decide +kernel⟩, by decide +kernel⟩
  have hclosed : ¬(Outputs (darkening 1).reset ∧ 0 < (darkening 1).pulse) := by
    have hpulse : (darkening 1).pulse = 0 := by decide +kernel
    simp [hpulse]
  have hdiffer := (reset_leaves_pulse hnew hqs (Ram.zero.load 0 [0xD3, 0xFF, 0xDB, 0xFE])
    (List.replicate 2 .runLine) (by decide +kernel) (by decide +kernel)).1 hopen
  have hagree := (reset_leaves_pulse hnew hqs (Ram.zero.load 0 [0xD3, 0xFF, 0xDB, 0xFE])
    (List.replicate 1 .runLine) (by decide +kernel) (by decide +kernel)).2 hclosed
  exact ⟨hdiffer.1, hdiffer.2, hagree⟩

end Machine
end Zx81
