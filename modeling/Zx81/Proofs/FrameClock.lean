import Mathlib.Data.Int.ModEq
import Zx81.Proofs.SingleStep

namespace Zx81

open Video (Ula Scanline)
open Z80 (Cpu)

namespace Engine

section Position

variable (c : Config) (e : Engine) (line : Scanline) (t : Nat)

theorem position_mapBoard (f : Board → Board) : (e.mapBoard f).position = e.position := rfl

theorem position_stepped : e.stepped.2.position = e.position := rfl

theorem position_interruptIf (due : Bool) : (e.interruptIf due).2.position = e.position := by
  cases due with
  | false => rfl
  | true => rfl

theorem position_advance :
    (e.advance c t).position = Config.counted (e.position + t) % c.frameTstates := rfl

/-- The clock moves on by the time of the instruction and of the interrupts it let in. -/
theorem position_deliver : (e.deliver c t).2.position =
    Config.counted (e.position + (t + (e.deliver c t).1)) % c.frameTstates := by
  let first := e.interruptIf (e.frameInterruptDue c t)
  let second := first.2.interruptIf first.2.lineInterruptDue
  have hdeliver : e.deliver c t =
      (first.1 + second.1, second.2.advance c (t + (first.1 + second.1))) := rfl
  have hposition : second.2.position = e.position :=
    (first.2.position_interruptIf _).trans (e.position_interruptIf _)
  rw [hdeliver, position_advance, hposition]

theorem position_runInstruction : (e.runInstruction c).2.position =
    Config.counted (e.position + (e.runInstruction c).1) % c.frameTstates := by
  rw [runInstruction_eq]
  have hdeliver := e.stepped.2.position_deliver c e.stepped.1
  rwa [position_stepped] at hdeliver

theorem position_lineNmi : (e.lineNmi line).2.position = e.position := by
  unfold lineNmi
  split
  · rfl
  · rfl

/-- Only an interrupt at the end of the line adds to the time of the instruction. -/
theorem tstates_finishLine : (finishLine t e line).tstates =
    t + if e.board.ula.expired then (e.lineNmi line).1 else 0 := by
  by_cases hexpired : e.board.ula.expired
  · simp only [finishLine, if_pos hexpired]
  · simp only [finishLine, if_neg hexpired, Nat.add_zero]

theorem position_finishLine : (finishLine t e line).engine.position = e.position := by
  unfold finishLine
  split
  · exact e.position_lineNmi line
  · rfl

theorem position_beginLine : (e.beginLine line).1.position = e.position := by
  unfold beginLine
  simp only
  split
  · rfl
  · rfl

end Position

/-- A span of time passes a position of the frame, in the frame it begins in or in the next,
exactly if it passes the position of some frame. -/
theorem crosses_iff {frame position before t : Nat} (hposition : position < frame)
    (hbefore : before < frame) (hfits : before + t < 0x100000000) (past : Nat) :
    crosses frame position before t ↔
      ∃ n, past * frame + before < position + n * frame ∧
        position + n * frame ≤ past * frame + before + t := by
  have hnext : (past + 1) * frame = past * frame + frame := Nat.succ_mul past frame
  have hafter := Config.counted_of_lt hfits
  simp only [crosses, hafter, Bool.or_eq_true, Bool.and_eq_true, decide_eq_true_eq]
  constructor
  · rintro (⟨hlow, hhigh⟩ | ⟨hlow, hhigh⟩)
    · exact ⟨past, by omega, by omega⟩
    · exact ⟨past + 1, by omega, by omega⟩
  · rintro ⟨n, hlow, hhigh⟩
    rcases Nat.lt_trichotomy n past with hlt | rfl | hgt
    · have hle : (n + 1) * frame ≤ past * frame := Nat.mul_le_mul_right frame hlt
      rw [Nat.succ_mul] at hle
      omega
    · left
      omega
    · have hle : (past + 1) * frame ≤ n * frame := Nat.mul_le_mul_right frame hgt
      right
      omega

end Engine

namespace Machine

section Turn

variable (m : Machine)

/-- The time of the interrupt at the end of a line, if the next instruction lets one in. -/
def nmiTime (m : Machine) : Nat :=
  if m.drawn.1.board.ula.expired then (m.drawn.1.lineNmi m.drawn.2).1 else 0

def frameInterruptDue (m : Machine) : Bool :=
  m.ready.engine.stepped.2.frameInterruptDue m.config m.ready.engine.stepped.1

/-- The time of the next instruction without the interrupts after it. -/
def stepTime (m : Machine) : Nat := m.ready.engine.stepped.1

theorem ran_le : m.ran.1 ≤ 42 := by
  obtain ⟨t, e', shift, event, hrun, hlow, hhigh, -⟩ :=
    m.ready.engine.runInstruction_effect m.ready.config
  rw [ran, hrun]
  exact hhigh

theorem stepTime_le : m.stepTime ≤ 42 := by
  have hran := m.ran_le
  rw [ran, Engine.runInstruction_eq] at hran
  exact Nat.le_trans (Nat.le_add_right _ _) hran

theorem position_ready : m.ready.engine.position = m.engine.position := by
  unfold ready
  split
  · exact m.engine.position_beginLine m.line
  · rfl

theorem turnTime_eq_add : m.turnTime = m.ran.1 + m.nmiTime := by
  rw [turnTime_eq, Engine.tstates_finishLine, nmiTime]

/-- The request is for the time of the instruction alone. -/
theorem frameInterruptDue_iff : m.frameInterruptDue ↔ ∃ position,
    m.config.interruptAt = some position ∧
      Engine.crosses m.config.frameTstates position m.engine.position m.stepTime := by
  have hbefore : m.ready.engine.stepped.2.position = m.engine.position :=
    (m.ready.engine.position_stepped).trans m.position_ready
  unfold frameInterruptDue Engine.frameInterruptDue
  rw [hbefore]
  cases m.config.interruptAt with
  | none => simp
  | some position => simp [stepTime]

theorem position_restart : m.restart.engine.position = m.engine.position := by
  rw [restart_engine]
  split
  · rw [Engine.position_mapBoard]
  · rfl

theorem position_present : m.present.engine.position = m.engine.position := by
  unfold present
  simp only
  split
  · rfl
  · rfl

theorem position_settle : m.settle.engine.position = m.engine.position := by
  unfold settle
  split
  · exact m.restart.position_present.trans m.position_restart
  · rfl

/-- A turn moves the clock on by all of its time but the interrupt at the end of a line. -/
theorem position_turn : m.turn.engine.position =
    Config.counted (m.engine.position + m.ran.1) % m.config.frameTstates := by
  have hpass : m.ready.pass.engine.position = m.ran.2.position := by
    have hfinish := m.drawn.1.position_finishLine m.drawn.2 m.ran.1
    rw [← m.pass_eq] at hfinish
    exact hfinish
  have hran := m.ready.engine.position_runInstruction m.ready.config
  rw [m.position_ready, m.ready_frame.1] at hran
  rw [turn, position_settle, hpass, ran, m.ready_frame.1, hran]

end Turn

/-- Changes from outside that leave the clocks and the configuration alone. -/
structure ClocksKept (m m' : Machine) : Prop where
  config : m'.config = m.config
  position : m'.engine.position = m.engine.position
  ticks : m'.engine.cpu.ticks = m.engine.cpu.ticks

inductive Started (c : Config) : Machine → Prop
  | built {m : Machine} (h : new c = .ok m) : Started c m
  | reset {m : Machine} (h : m.config = c) : Started c m.reset

/-- A run of the loop from the start of a machine on, as the machines before each instruction. In
between all but the clocks and the configuration may be changed from outside. -/
structure ClockRun (c : Config) (m : ℕ → Machine) : Prop where
  valid : c.fault? = none
  start : ∃ m', Started c m' ∧ ClocksKept m' (m 0)
  step : ∀ k, ClocksKept (m k).turn (m (k + 1))

theorem Started.frame {c : Config} {m : Machine} (h : Started c m) :
    m.config = c ∧ m.engine.position = 0 := by
  cases h with
  | built h =>
    rw [eq_ofConfig_of_new h]
    exact ⟨rfl, rfl⟩
  | reset h => exact ⟨h, rfl⟩

namespace ClockRun

variable {c : Config} {m : ℕ → Machine}

theorem config (h : ClockRun c m) (k : ℕ) : (m k).config = c := by
  induction k with
  | zero =>
    obtain ⟨m', hstart, hkept⟩ := h.start
    rw [hkept.config, hstart.frame.1]
  | succ k ih => rw [(h.step k).config, config_turn, ih]

section Counted

variable (hfits : c.lineTstates * c.frameLines + 42 ≤ 0x100000000)

include hfits

/-- Both clocks, told from the times of the instructions and of the interrupts at the end of
lines. -/
theorem clocks (h : ClockRun c m) (k : ℕ) :
    (m k).engine.cpu.ticks = (m 0).engine.cpu.ticks +
        (∑ i ∈ Finset.range k, (m i).ran.1 + ∑ i ∈ Finset.range k, (m i).nmiTime) ∧
      (m k).engine.position =
        (∑ i ∈ Finset.range k, (m i).ran.1) % (c.lineTstates * c.frameLines) := by
  have hframe := ((Config.fault?_eq_none_iff c).mp h.valid).frame_pos
  induction k with
  | zero =>
    obtain ⟨m', hstart, hkept⟩ := h.start
    refine ⟨rfl, ?_⟩
    rw [hkept.position, hstart.frame.2, Finset.sum_range_zero, Nat.zero_mod]
  | succ k ih =>
    obtain ⟨hticks, hposition⟩ := ih
    constructor
    · rw [(h.step k).ticks, ticks_turn, turnTime_eq_add, hticks, Finset.sum_range_succ,
        Finset.sum_range_succ]
      omega
    · -- the sum of a position and the longest instruction is still counted exactly
      have hsum : (m k).engine.position + (m k).ran.1 < 0x100000000 := by
        have hbefore : (m k).engine.position < c.lineTstates * c.frameLines := by
          rw [hposition]
          exact Nat.mod_lt _ hframe
        have htime := (m k).ran_le
        omega
      have hturn := (m k).position_turn
      rw [h.config k, Config.counted_of_lt hsum, Config.frameTstates_of_lt (by omega)] at hturn
      rw [(h.step k).position, hturn, hposition, Finset.sum_range_succ, Nat.mod_add_mod]

/-- The position tells the time of a frame only with every whole frame taken off. -/
theorem instructionTime_eq (h : ClockRun c m) (k : ℕ) : ∃ past,
    ∑ i ∈ Finset.range k, (m i).ran.1 =
      past * (c.lineTstates * c.frameLines) + (m k).engine.position := by
  have hposition := (clocks hfits h k).2
  refine ⟨(∑ i ∈ Finset.range k, (m i).ran.1) / (c.lineTstates * c.frameLines), ?_⟩
  rw [hposition, Nat.div_add_mod']

theorem position_lt (h : ClockRun c m) (k : ℕ) :
    (m k).engine.position < c.lineTstates * c.frameLines := by
  have hframe := ((Config.fault?_eq_none_iff c).mp h.valid).frame_pos
  rw [(clocks hfits h k).2]
  exact Nat.mod_lt _ hframe

end Counted

end ClockRun

/-- The frame clock counts instructions and the maskable interrupts they let in, and is the
processor's clock, from power-on or the last reset on and within a frame, exactly as long as the
interrupts at the end of lines have taken whole frames. The frame interrupt is requested after the
instructions in which the frame clock passes its position, and so falls behind with it. The frame
is one that can be counted together with the longest instruction after it. -/
theorem frame_clock_lags {c : Config} {m : ℕ → Machine}
    (hfits : c.lineTstates * c.frameLines + 42 ≤ 0x100000000) (h : ClockRun c m) (k : ℕ) :
    let frame := c.lineTstates * c.frameLines
    let instructions := ∑ i ∈ Finset.range k, (m i).ran.1
    let nmis := ∑ i ∈ Finset.range k, (m i).nmiTime
    (m k).engine.cpu.ticks = (m 0).engine.cpu.ticks + (instructions + nmis) ∧
      (m k).engine.position = instructions % frame ∧
      ((m k).engine.position =
          ((m k).engine.cpu.ticks - (m 0).engine.cpu.ticks) % frame ↔ frame ∣ nmis) ∧
      ((m k).frameInterruptDue ↔ ∃ position n, c.interruptAt = some position ∧
        instructions < position + n * frame ∧
        position + n * frame ≤ instructions + (m k).stepTime) := by
  intro frame instructions nmis
  obtain ⟨hticks, hposition⟩ := h.clocks hfits k
  refine ⟨hticks, hposition, ?_, ?_⟩
  · have hspan : (m k).engine.cpu.ticks - (m 0).engine.cpu.ticks = instructions + nmis := by
      rw [hticks, Nat.add_sub_cancel_left]
    rw [hspan, hposition]
    have hwhole : instructions ≡ instructions + nmis [MOD frame] ↔ frame ∣ nmis := by
      rw [Nat.modEq_iff_dvd' (Nat.le_add_right instructions nmis), Nat.add_sub_cancel_left]
    exact hwhole
  · obtain ⟨past, htime⟩ := h.instructionTime_eq hfits k
    have hlength : c.frameTstates = frame := Config.frameTstates_of_lt (by omega)
    have hbefore := h.position_lt hfits k
    have hsum : (m k).engine.position + (m k).stepTime < 0x100000000 := by
      have hstep := (m k).stepTime_le
      omega
    have hcrosses : ∀ position, c.interruptAt = some position →
        (Engine.crosses frame position (m k).engine.position (m k).stepTime ↔
          ∃ n, instructions < position + n * frame ∧
            position + n * frame ≤ instructions + (m k).stepTime) := by
      intro position hat
      have hwithin := ((Config.fault?_eq_none_iff c).mp h.valid).interrupt position hat
      rw [hlength] at hwithin
      rw [Engine.crosses_iff hwithin hbefore hsum past, ← htime]
    rw [frameInterruptDue_iff, h.config k, hlength]
    constructor
    · rintro ⟨position, hat, hdue⟩
      obtain ⟨n, hn⟩ := (hcrosses position hat).mp hdue
      exact ⟨position, n, hat, hn⟩
    · rintro ⟨position, n, hat, hn⟩
      exact ⟨position, hat, (hcrosses position hat).mpr ⟨n, hn⟩⟩

/-- A program that switches interrupts at the end of lines on, and goes on. -/
def interrupted : Machine := (ofConfig { lineTstates := 12 }).load 0 [0xD3, 0xFE, 0x00]

/-- After the first line the frame clock is eleven T-states behind. -/
theorem interrupted_lags :
    (turn^[2] interrupted).engine.cpu.ticks = 26 ∧ (turn^[2] interrupted).engine.position = 15 ∧
      (turn^[2] interrupted).engine.position ≠
        ((turn^[2] interrupted).engine.cpu.ticks - interrupted.engine.cpu.ticks) % (12 * 312) := by
  have hrun : ClockRun { lineTstates := 12 } (fun k => turn^[k] interrupted) := by
    constructor
    · decide
    · exact ⟨ofConfig { lineTstates := 12 }, .built rfl, rfl, rfl, rfl⟩
    · intro k
      simp only [Function.iterate_succ_apply']
      exact ⟨rfl, rfl, rfl⟩
  have hinstructions : ∑ i ∈ Finset.range 2, (turn^[i] interrupted).ran.1 = 15 := by
    decide +kernel
  have hnmis : ∑ i ∈ Finset.range 2, (turn^[i] interrupted).nmiTime = 11 := by decide +kernel
  have hfits : ({ lineTstates := 12 } : Config).lineTstates *
      ({ lineTstates := 12 } : Config).frameLines + 42 ≤ 0x100000000 := by decide +kernel
  have hstart : interrupted.engine.cpu.ticks = 0 := rfl
  obtain ⟨hticks, hposition, hagrees, -⟩ := frame_clock_lags hfits hrun 2
  simp only [hinstructions, hnmis, Function.iterate_zero_apply] at hticks hposition hagrees
  refine ⟨?_, hposition, ?_⟩
  · rw [hticks, hstart]
  · intro hsame
    have hle := Nat.le_of_dvd (by decide) (hagrees.mp hsame)
    exact absurd hle (by decide)

end Machine
end Zx81
