import Zx81.Proofs.FrameClock
import Zx81.Proofs.VerticalPulse

namespace Zx81

open Video (Ula Scanline ShiftRegister)
open Z80 (Cpu)

/-- The check bounds neither the length of a line nor the number of lines. -/
theorem Config.Runnable.retimed {c : Config} (h : c.Runnable) {lineTstates frameLines : Nat}
    (hline : lineTstates ≠ 0) (hframe : frameLines ≠ 0) :
    Runnable { c with lineTstates, frameLines, interruptAt := none } := by
  refine ⟨h.clock, hline, hframe, h.ram, h.display, ?_⟩
  intro position hat
  cases hat

namespace Video

namespace Scanline

variable (line : Scanline) (colour : UInt8)

theorem push_of_room (h : line.length < capacity) :
    line.push colour = { line with samples := line.samples.push colour } :=
  congrArg (Scanline.mk · line.syncLength line.sync) (if_pos h)

theorem push_of_full (h : ¬line.length < capacity) : line.push colour = line :=
  congrArg (Scanline.mk · line.syncLength line.sync) (if_neg h)

/-- A line is filled by one push after the other. -/
theorem fill_eq_iterate (n : Nat) : line.fill colour n = (·.push colour)^[n] line := by
  induction n with
  | zero => simp [fill]
  | succ n ih =>
    have hlength := line.length_fill colour n
    rw [Function.iterate_succ_apply', ← ih]
    by_cases hroom : (line.fill colour n).length < capacity
    · have hmin : min n (capacity - line.samples.size) = n := by
        simp only [length] at hlength hroom
        omega
      have hmin' : min (n + 1) (capacity - line.samples.size) = n + 1 := by
        simp only [length] at hlength hroom
        omega
      rw [push_of_room _ _ hroom, fill, fill, hmin, hmin', Array.replicate_succ, Array.append_push]
    · have hmin : min (n + 1) (capacity - line.samples.size) =
          min n (capacity - line.samples.size) := by
        simp only [length] at hlength hroom
        omega
      rw [push_of_full _ _ hroom, fill, fill, hmin]

end Scanline

namespace Ula

variable {L t n : Nat} {u : Ula}

/-- The timer is within a line of `L` T-states, and no more is carried over than a turn takes. -/
structure Within (L : Nat) (u : Ula) : Prop where
  lineLength : u.lineLength = L
  pos : 0 < u.counter.toInt
  le : u.counter.toInt ≤ L
  borrow : u.borrow ≤ 52

theorem within_new (hlow : 0 < L) (hhigh : L < 0x80000000) : Within L { lineLength := L } := by
  have hcounter : ({ lineLength := L } : Ula).counter.toInt = L := Int32.toInt_ofNat_of_lt hhigh
  constructor
  · rfl
  · rw [hcounter]
    exact Int.natCast_pos.mpr hlow
  · exact Int.le_of_eq hcounter
  · exact Nat.zero_le _

theorem Within.restartLine (hlow : 0 < L) (hhigh : L < 0x80000000) (h : Within L u) :
    Within L u.restartLine := by
  have hlength := h.lineLength
  have hcounter : u.restartLine.counter.toInt = L := by
    rw [Ula.restartLine, hlength]
    exact Int32.toInt_ofNat_of_lt hhigh
  constructor
  · exact hlength
  · rw [hcounter]
    exact Int.natCast_pos.mpr hlow
  · exact Int.le_of_eq hcounter
  · exact Nat.zero_le _

/-- On lines of 53 T-states or more the timer is within the line after every turn. -/
theorem Within.close_draw (hlow : 53 ≤ L) (hhigh : L < 0x80000000) (h : Within L u)
    (htime : t + n ≤ 53) (line : Scanline) :
    Within L (close n (u.draw t line).1 (u.draw t line).2).1 := by
  have hpos := h.pos
  have hle := h.le
  have hlength : (u.draw t line).1.lineLength = L := (lineLength_draw t u line).trans h.lineLength
  have hcounter := counter_draw t u line (by omega) (by omega)
  have hborrow : (u.draw t line).1.borrow = u.borrow := by rw [draw_fst]
  cases hexpired : (u.draw t line).1.expired with
  | true =>
    have hover := expired_iff.mp hexpired
    obtain ⟨hsame, hagain, hcarried⟩ :=
      close_timer n (u.draw t line).2 hexpired (by omega) (by omega) (by omega)
    constructor
    · rw [hsame, hlength]
    · omega
    · omega
    · omega
  | false =>
    have hleft := expired_eq_false_iff.mp hexpired
    rw [close_of_running n hexpired]
    constructor
    · exact hlength
    · exact hleft
    · change (u.draw t line).1.counter.toInt ≤ L
      omega
    · change (u.draw t line).1.borrow ≤ 52
      rw [hborrow]
      exact h.borrow

end Ula
end Video

namespace Z80.Cpu

/-- A processor that halts has accepted no interrupt. -/
theorem interrupt_of_halted (cpu : Cpu) (b : Board) (h : (cpu.interrupt b).cpu.regs.halted) :
    cpu.interrupt b = ⟨cpu, b, 0⟩ := by
  by_cases haccepts : cpu.accepts
  · have hwoken := halted_acceptInterrupt (⟨cpu.regs, 0, cpu.holdOff, b⟩ : Core Board)
    rw [interrupt, if_pos haccepts, run_eq_settle, Core.settle, hwoken] at h
    cases h
  · rw [interrupt, if_neg haccepts]

end Z80.Cpu

namespace Engine

variable (c : Config) (e : Engine) (line : Scanline)

theorem interruptIf_of_halted (due : Bool) (h : (e.interruptIf due).2.cpu.regs.halted) :
    e.interruptIf due = (0, e) := by
  cases due with
  | false => rfl
  | true =>
    have hnone := e.cpu.interrupt_of_halted e.board h
    change e.onBoard Cpu.interrupt = (0, e)
    rw [onBoard, hnone]

theorem deliver_of_halted (t : Nat) (h : (e.deliver c t).2.cpu.regs.halted) :
    (e.deliver c t).1 = 0 := by
  let first := e.interruptIf (e.frameInterruptDue c t)
  let second := first.2.interruptIf first.2.lineInterruptDue
  have htime : (e.deliver c t).1 = first.1 + second.1 := rfl
  have hcpu : (e.deliver c t).2.cpu = second.2.cpu := rfl
  rw [hcpu] at h
  have hsecond : second = (0, first.2) := first.2.interruptIf_of_halted _ h
  rw [hsecond] at h
  have hfirst : first = (0, e) := e.interruptIf_of_halted _ h
  simp only [htime, hsecond, hfirst]

theorem tstates_stepped_le : e.stepped.1 ≤ 23 := by
  have hula := (e.mapBoard (·.mapUla (·.clearEvent))).load_frame.2
  obtain ⟨t, e', shift, event, hstep, hlow, hhigh, -⟩ :=
    (e.mapBoard (·.mapUla (·.clearEvent))).load.step_effect (congrArg Ula.event hula)
  rw [stepped, hstep]
  exact hhigh

/-- Only the interrupt that wakes a halted processor may wait. -/
theorem tstates_lineNmi_le (h : e.cpu.regs.halted = false) : (e.lineNmi line).1 ≤ 11 := by
  by_cases hnmi : e.board.ula.nmi
  · have htime := (e.cpu.nmi_board e.board (e.board.ula.haltWait line)).1
    rw [h, if_neg Bool.false_ne_true, Nat.zero_add] at htime
    rw [lineNmi, if_pos hnmi]
    exact Nat.le_of_eq htime
  · rw [lineNmi, if_neg hnmi]
    exact Nat.zero_le _

end Engine

namespace Machine

section Turn

variable (m : Machine)

/-- An instruction that leaves the processor halted lets no interrupt in. -/
theorem ran_le_of_halted (h : m.ran.2.cpu.regs.halted) : m.ran.1 ≤ 23 := by
  have hstep := m.ready.engine.tstates_stepped_le
  rw [ran, Engine.runInstruction_eq] at h ⊢
  have hnone := m.ready.engine.stepped.2.deliver_of_halted m.ready.config _ h
  change m.ready.engine.stepped.1 + (Engine.deliver _ _ _).1 ≤ 23
  rw [hnone]
  exact hstep

theorem cpu_drawn : m.drawn.1.cpu = m.ran.2.cpu := by
  obtain ⟨e', line', hdraw, hcpu, -⟩ :=
    m.ran.2.drawLine_effect m.ready.line (Ula.draw m.ran.1)
  rw [drawn, drawnOn, Engine.drawInstruction_eq, hdraw, hcpu]

/-- The wait of the interrupt at the end of a line does not come on top of the longest turn. -/
theorem turnTime_le : m.turnTime ≤ 53 := by
  have hran := m.ran_le
  have hnmi : m.nmiTime ≤ 14 := by
    obtain ⟨n, e', hnmi, hle, -⟩ := m.drawn.1.lineNmi_effect m.drawn.2
    rw [nmiTime, hnmi]
    split
    · exact hle
    · exact Nat.zero_le _
  rw [turnTime_eq_add]
  cases hhalted : m.ran.2.cpu.regs.halted with
  | true =>
    have hshort := m.ran_le_of_halted hhalted
    omega
  | false =>
    rw [← cpu_drawn] at hhalted
    have hprompt : m.nmiTime ≤ 11 := by
      have hle := m.drawn.1.tstates_lineNmi_le m.drawn.2 hhalted
      rw [nmiTime]
      split
      · exact hle
      · exact Nat.zero_le _
    omega

end Turn

section Step

variable {L : Nat} {m : Machine}

theorem within_ready (h : m.ula.Within L) : m.ready.ula.Within L := by
  have hopen := m.openLine_eq
  cases hdone : m.lineDone with
  | false =>
    rw [m.ready_of_not_lineDone hdone]
    exact h
  | true =>
    rw [ready, if_pos hdone]
    by_cases hsync : m.line.hasSync
    · rw [if_pos hsync] at hopen
      rw [hopen.1]
      exact ⟨h.lineLength, h.pos, h.le, Nat.zero_le _⟩
    · rw [if_neg hsync] at hopen
      rw [hopen.1]
      exact h

/-- A line that goes on is not full, and one that begins holds what is carried over at most. -/
theorem length_ready (h : m.ula.Within L) : m.ready.line.length < Scanline.cutoff := by
  have hopen := m.openLine_eq
  have hborrow := h.borrow
  have hcutoff : Scanline.cutoff = 4000 := rfl
  cases hdone : m.lineDone with
  | false =>
    have hlimit := m.limit_of_not_lineDone hdone
    have hmost := Engine.limit_le m.config
    rw [m.ready_of_not_lineDone hdone]
    omega
  | true =>
    rw [ready, if_pos hdone]
    by_cases hsync : m.line.hasSync
    · rw [if_pos hsync] at hopen
      rw [hopen.2.2.2]
      omega
    · rw [if_neg hsync] at hopen
      rw [hopen.2]
      exact Nat.zero_lt_succ _

theorem within_turn (hlow : 53 ≤ L) (hhigh : L < 0x80000000) (h : m.ula.Within L) :
    m.turn.ula.Within L := by
  have hready := within_ready h
  obtain ⟨t, n, u, hturned⟩ := m.ready.engine.pass_effect m.ready.config m.ready.line
  obtain ⟨shift, event, hchip⟩ := hturned.chip
  have hu : u.Within L := by
    rw [hchip]
    exact ⟨hready.lineLength, hready.pos, hready.le, hready.borrow⟩
  have htime : t + n ≤ 53 := by
    have hle := m.turnTime_le
    rwa [turnTime, passTime, hturned.tstates] at hle
  have hclosed := hu.close_draw hlow hhigh htime m.ready.line
  rw [← hturned.drawn] at hclosed
  change m.ready.pass.ula.Within L at hclosed
  rw [ula_turn]
  split
  · exact hclosed.restartLine (by omega) hhigh
  · exact hclosed

end Step

theorem Run.within {c : Config} {m : ℕ → Machine} (h : Run c m) (hlow : 53 ≤ c.lineTstates)
    (hhigh : c.lineTstates < 0x80000000) (k : ℕ) : (m k).ula.Within c.lineTstates := by
  induction k with
  | zero =>
    rw [h.powerOn.ula]
    exact Ula.within_new (by omega) hhigh
  | succ k ih =>
    rw [(h.undisturbed k).ula]
    exact within_turn hlow hhigh ih

/-- A frame of lines of 53 T-states or more that can be counted has no more lines than can be
counted four times. -/
theorem lineBudget_of_fits {c : Config} (hlow : 53 ≤ c.lineTstates)
    (hfits : c.lineTstates * c.frameLines < 0x100000000) : lineBudget c = c.frameLines * 4 := by
  apply Config.counted_of_lt
  have hless : c.frameLines * 4 ≤ c.lineTstates * c.frameLines := by
    rw [Nat.mul_comm]
    exact Nat.mul_le_mul_right c.frameLines (by omega)
  exact Nat.lt_of_le_of_lt hless hfits

/-- Lines of 53 T-states or more hold what they are overrun by. In any run of any program the line
timer is within the line after every turn of the loop, and so after every call, and no sample is
pushed onto a full line, neither of what is carried over nor of what an instruction sends; and a
frame that can be counted is as long as its lines, and is tried four times. But the check of a
description accepts lines and frames of any length, and of those that cannot be counted the length
of the frame, or the number of lines tried, is not the product it should be. -/
theorem overruns_fit {c : Config} {m : ℕ → Machine} (hvalid : c.fault? = none)
    (hlow : 53 ≤ c.lineTstates) (hhigh : c.lineTstates < 0x80000000)
    (hfits : c.lineTstates * c.frameLines + 42 ≤ 0x100000000) (h : Run c m) :
    (∀ lineTstates frameLines, lineTstates ≠ 0 → frameLines ≠ 0 →
      let c' : Config := { c with lineTstates, frameLines, interruptAt := none }
      c'.fault? = none ∧
        (c'.frameTstates = lineTstates * frameLines ↔ lineTstates * frameLines < 0x100000000) ∧
        (lineBudget c' = frameLines * 4 ↔ frameLines * 4 < 0x100000000)) ∧
    (c.frameTstates = c.lineTstates * c.frameLines ∧ 0 < c.frameTstates ∧
      lineBudget c = c.frameLines * 4) ∧
    ∀ k, (1 ≤ (m k).turn.ula.counter.toInt ∧ (m k).turn.ula.counter.toInt ≤ c.lineTstates) ∧
      ((m k).line.hasSync → ∀ colour, ∀ i < 2 * (m k).ula.borrow,
        ((·.push colour)^[i] (m k).line.clearSamples.resetSync).length < Scanline.capacity) ∧
      ∀ lit shift, ∀ i < 2 * (m k).ran.1,
        (ShiftRegister.shiftOut lit i shift (m k).ready.line).2.length < Scanline.capacity := by
  have hrunnable := (Config.fault?_eq_none_iff c).mp hvalid
  have hproduct : c.lineTstates * c.frameLines < 0x100000000 := by omega
  refine ⟨?_, ?_, ?_⟩
  · intro lineTstates frameLines hline hframe c'
    refine ⟨?_, Config.counted_eq_iff, Config.counted_eq_iff⟩
    exact (Config.fault?_eq_none_iff c').mpr (hrunnable.retimed hline hframe)
  · have hlength := Config.frameTstates_of_lt hproduct
    refine ⟨hlength, ?_, lineBudget_of_fits hlow hproduct⟩
    rw [hlength]
    exact hrunnable.frame_pos
  intro k
  have hwithin := h.within hlow hhigh k
  have hcapacity : Scanline.capacity = 4096 := rfl
  refine ⟨?_, ?_, ?_⟩
  · have hnext := within_turn hlow hhigh hwithin
    exact ⟨hnext.pos, hnext.le⟩
  · intro _ colour i hi
    have hborrow := hwithin.borrow
    have hempty : (m k).line.clearSamples.resetSync.length = 0 := rfl
    rw [← Scanline.fill_eq_iterate, Scanline.length_fill, hempty]
    omega
  · intro lit shift i hi
    have htime := (m k).ran_le
    have hlength := length_ready hwithin
    have hcutoff : Scanline.cutoff = 4000 := rfl
    obtain ⟨-, -, hsent⟩ := ShiftRegister.shiftOut_snd lit i shift (m k).ready.line
    rw [hsent]
    omega

/-- A program of which the sixth instruction, with the interrupts that come with it, takes 53
T-states. -/
def longTurn (lineTstates : Nat) : Machine :=
  (ofConfig { lineTstates }).load 0
    [0xD3, 0xFE, 0xED, 0x6B, 0x00, 0x00, 0xED, 0x5E, 0xED, 0x5E, 0xFB, 0xDD, 0x34, 0x00]

theorem longTurn_53_fits :
    (turn^[5] (longTurn 53)).turnTime = 53 ∧
      1 ≤ (turn^[5] (longTurn 53)).turn.ula.counter.toInt := by
  have hrun : Run { lineTstates := 53 } (fun k => turn^[k] (longTurn 53)) := by
    constructor
    · exact (powerOn_ofConfig _).load 0 _
    · intro k _
      exact Function.iterate_succ_apply' turn k (longTurn 53)
    · intro k _
      simp only [Function.iterate_succ_apply']
      exact ⟨rfl, rfl, rfl, rfl⟩
  have hlow : 53 ≤ ({ lineTstates := 53 } : Config).lineTstates := Nat.le_refl 53
  have hhigh : ({ lineTstates := 53 } : Config).lineTstates < 0x80000000 := by decide
  have hfits : ({ lineTstates := 53 } : Config).lineTstates *
      ({ lineTstates := 53 } : Config).frameLines + 42 ≤ 0x100000000 := by decide +kernel
  obtain ⟨-, -, hturns⟩ := overruns_fit (by decide) hlow hhigh hfits hrun
  exact ⟨by decide +kernel, (hturns 5).1.1⟩

/-- One T-state less is not enough: the line timer is left at zero. -/
theorem longTurn_52_overruns :
    ({ lineTstates := 52 } : Config).fault? = none ∧ (longTurn 52).call.ula.counter = 0 := by
  constructor
  · decide
  · decide +kernel

/-- A frame too long to be counted is accepted, and has no T-states. -/
theorem uncounted_frame_accepted :
    let c : Config := { lineTstates := 65536, frameLines := 65536 }
    c.fault? = none ∧ c.frameTstates = 0 := by
  constructor
  · decide +kernel
  · decide +kernel

end Machine
end Zx81
