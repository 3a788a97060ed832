import Zx81.Proofs.FlatStep
import Zx81.Proofs.RequestTrace
import Zx81.Proofs.VerticalPulse

namespace Zx81

open Video (Ula Scanline ShiftRegister PortEvent)
open Z80 (BusCycle CycleKind Shape Cpu Stepped Core Built Request Alike stepShapes decode)

namespace Video.ShiftRegister

/-- The low bytes are free for the next bitmap row. -/
def Free (r : ShiftRegister) : Prop := r.bits.toUInt8 = 0 ∧ r.inverse.toUInt8 = 0

theorem Free.load {r : ShiftRegister} (h : r.Free) (bitmap : UInt8) (inverse : Bool) :
    (r.load bitmap inverse).bits.toUInt8 = bitmap ∧
      (r.load bitmap inverse).inverse.toUInt8 = bif inverse then 0xFF else 0 := by
  obtain ⟨hbits, hinverse⟩ := h
  constructor
  · simp [ShiftRegister.load, hbits]
  · cases inverse
    · simpa [ShiftRegister.load] using hinverse
    · simp [ShiftRegister.load, hinverse]

theorem toUInt8_shifted (x : UInt16) :
    (x <<< 1 <<< 1 <<< 1 <<< 1 <<< 1 <<< 1 <<< 1 <<< 1).toUInt8 = 0 := by
  have hdouble (y : UInt16) : (y <<< 1).toNat = 2 * y.toNat % 65536 := by
    simp [UInt16.toNat_shiftLeft, Nat.shiftLeft_eq, Nat.mul_comm]
  apply UInt8.toNat_inj.mp
  simp only [UInt16.toNat_toUInt8, hdouble, UInt8.toNat_zero]
  omega

/-- Eight shifts make room. -/
theorem free_next (r : ShiftRegister) {n : Nat} (h : 8 ≤ n) : (next^[n] r).Free := by
  obtain ⟨m, rfl⟩ := Nat.exists_eq_add_of_le h
  rw [Function.iterate_add_apply]
  exact ⟨toUInt8_shifted _, toUInt8_shifted _⟩

end Video.ShiftRegister

def Z80.CycleKind.isPort : CycleKind → Bool
  | input | output => true
  | _ => false

def BusEvent.isPort : BusEvent → Bool
  | input _ _ | output _ _ => true
  | _ => false

theorem Z80.Shape.countP_isPort (s : Shape) :
    s.countP CycleKind.isPort = s.count .input + s.count .output := by
  induction s with
  | nil => rfl
  | cons k s ih =>
    rw [List.countP_cons, List.count_cons, List.count_cons, ih]
    cases k <;> simp +arith [CycleKind.isPort]

/-- An instruction makes no more than one port access. -/
theorem countP_step {σ : Type} [Bus σ] (cpu : Cpu) (bus : σ) :
    (cpu.step (Traced.mk bus #[])).bus.events.toList.countP BusEvent.isPort ≤ 1 := by
  obtain ⟨cs, hcs, -, htrace⟩ := cpu.step_recorded bus
  have hports := (Z80.stepShapes_bounds _ hcs).2.2.2
  have hevents (c : BusCycle) (elapsed wait : Nat) (v : UInt8) :
      (c.events elapsed wait v).countP BusEvent.isPort = [c.kind].countP CycleKind.isPort := by
    cases c <;> rfl
  rw [htrace, BusCycle.countP_recordAll hevents, Shape.countP_isPort]
  exact hports

/-- Whether an opcode fetch gives a character to the chip. -/
def Board.showsCharacter (b : Board) (a : UInt16) : Bool :=
  b.wiring.displayStart ≤ a && !isInstruction (b.memory.read (a &&& 0x7FFF))

/-- A board on which is written down what the chip's inputs hold when they are written to. -/
structure Watched where
  board : Board
  /-- The shift register before each bitmap row. -/
  loads : List ShiftRegister := []
  /-- The port access noted before each port access. -/
  latches : List (Option PortEvent) := []

instance : Bus Watched where
  read a w := ((Bus.read a w.board).1, { w with board := (Bus.read a w.board).2 })
  write a v w := { w with board := Bus.write a v w.board }
  fetch a refresh w :=
    ((Bus.fetch a refresh w.board).1,
      { w with
        board := (Bus.fetch a refresh w.board).2
        loads := w.loads ++ if w.board.showsCharacter a then [w.board.ula.shift] else [] })
  input port w :=
    ((Bus.input port w.board).1,
      { w with
        board := (Bus.input port w.board).2
        latches := w.latches ++ if port.toNat % 2 = 1 then [] else [w.board.ula.event] })
  output port v w :=
    { w with
      board := Bus.output port v w.board
      latches := w.latches ++ [w.board.ula.event] }
  memoryWait a elapsed t w :=
    ((Bus.memoryWait a elapsed t w.board).1,
      { w with board := (Bus.memoryWait a elapsed t w.board).2 })
  portWait port elapsed t w :=
    ((Bus.portWait port elapsed t w.board).1,
      { w with board := (Bus.portWait port elapsed t w.board).2 })

/-- What is watched is what the chip is given. -/
theorem Board.fetch_watched (b : Board) (a refresh : UInt16) :
    if b.showsCharacter a then
      ∃ bitmap inverse, b.fetch a refresh = (0, b.mapUla (·.loadShift bitmap inverse))
    else (b.fetch a refresh).2 = b := by
  unfold showsCharacter fetch fetchDisplay
  by_cases hdisplay : b.wiring.displayStart ≤ a
  · cases hcode : isInstruction (b.memory.read (a &&& 0x7FFF)) with
    | true => simp [hdisplay, hcode]
    | false =>
      simp only [hdisplay, hcode]
      exact ⟨_, _, rfl⟩
  · simp [hdisplay]

namespace Watched

theorem board_alike : Alike fun x (y : Nat × Watched) => x = (y.1, y.2.board) := by
  rintro c _ ⟨elapsed, w⟩ rfl
  cases c <;> exact ⟨rfl, rfl⟩

/-- Watching changes nothing. -/
theorem run_board (q : Request) (cpu : Cpu) (w : Watched) :
    q.run cpu w.board = ⟨(q.run cpu w).cpu, (q.run cpu w).bus.board, (q.run cpu w).tstates⟩ :=
  Request.run_view board_alike q cpu w

/-- A list to which only cycles of some kinds append, and what they append is what a part of the
board holds, which no other cycle changes. -/
def Logs {α : Type} (kinds : CycleKind → Bool) (slot : Board → α) (log : Watched → List α) :
    Prop :=
  ∀ (c : BusCycle) elapsed w,
    let w' := (c.run (elapsed, w)).2.2
    (log w' = log w ∧ slot w'.board = slot w.board) ∨
      (kinds c.kind ∧ log w' = log w ++ [slot w.board])

section Logs

variable {α : Type} {kinds : CycleKind → Bool} {slot : Board → α} {log : Watched → List α}
  (h : Logs kinds slot log)

include h

theorem Logs.runAll_of_none (cs : List BusCycle) (elapsed : Nat) (w : Watched)
    (hcs : (cs.map BusCycle.kind).countP kinds = 0) :
    let w' := (BusCycle.runAll cs (elapsed, w)).2
    log w' = log w ∧ slot w'.board = slot w.board := by
  induction cs generalizing elapsed w with
  | nil => exact ⟨rfl, rfl⟩
  | cons c cs ih =>
    rw [List.map_cons, List.countP_cons] at hcs
    rcases h c elapsed w with ⟨hlog, hslot⟩ | ⟨hkind, -⟩
    · obtain ⟨hlogs, hslots⟩ := ih (c.run (elapsed, w)).2.1 (c.run (elapsed, w)).2.2 (by omega)
      exact ⟨hlogs.trans hlog, hslots.trans hslot⟩
    · rw [if_pos hkind] at hcs
      omega

theorem Logs.runAll (cs : List BusCycle) (elapsed : Nat) (w : Watched)
    (hcs : (cs.map BusCycle.kind).countP kinds ≤ 1) :
    let w' := (BusCycle.runAll cs (elapsed, w)).2
    log w' = log w ∨ log w' = log w ++ [slot w.board] := by
  induction cs generalizing elapsed w with
  | nil => exact .inl rfl
  | cons c cs ih =>
    rw [List.map_cons, List.countP_cons] at hcs
    let w' := (c.run (elapsed, w)).2.2
    rcases h c elapsed w with ⟨hlog, hslot⟩ | ⟨hkind, hlog⟩
    · have hrest := ih (c.run (elapsed, w)).2.1 w' (by omega)
      rw [hlog, hslot] at hrest
      exact hrest
    · rw [if_pos hkind] at hcs
      obtain ⟨hrest, -⟩ := h.runAll_of_none cs (c.run (elapsed, w)).2.1 w' (by omega)
      exact .inr (hrest.trans hlog)

end Logs

theorem loads_logged : Logs (· == .fetch) (·.ula.shift) loads := by
  intro c elapsed w w'
  cases c with
  | fetch a refresh =>
    have hfetch := w.board.fetch_watched a refresh
    have hlog : w'.loads =
        w.loads ++ if w.board.showsCharacter a then [w.board.ula.shift] else [] := rfl
    have hboard : w'.board = (w.board.fetch a refresh).2 := rfl
    split at hfetch
    case isTrue hshows => exact .inr ⟨rfl, by rw [hlog, if_pos hshows]⟩
    case isFalse hnot =>
      left
      rw [hlog, if_neg hnot, List.append_nil, hboard, hfetch]
      exact ⟨rfl, rfl⟩
  | write a v => exact .inl ⟨rfl, congrArg Ula.shift (w.board.ula_write a v)⟩
  | input port =>
    refine .inl ⟨rfl, ?_⟩
    change (w.board.input port).2.ula.shift = _
    unfold Board.input
    split <;> rfl
  | read | output | internal => exact .inl ⟨rfl, rfl⟩

theorem latches_logged : Logs CycleKind.isPort (·.ula.event) latches := by
  intro c elapsed w w'
  cases c with
  | fetch a refresh =>
    refine .inl ⟨rfl, ?_⟩
    have hfetch := w.board.fetch_watched a refresh
    have hboard : w'.board = (w.board.fetch a refresh).2 := rfl
    rw [hboard]
    split at hfetch
    · obtain ⟨bitmap, inverse, hfetched⟩ := hfetch
      rw [hfetched]
      rfl
    · rw [hfetch]
  | write a v => exact .inl ⟨rfl, congrArg Ula.event (w.board.ula_write a v)⟩
  | input port =>
    have hlog : w'.latches =
        w.latches ++ if port.toNat % 2 = 1 then [] else [w.board.ula.event] := rfl
    have hboard : w'.board = (w.board.input port).2 := rfl
    by_cases hodd : port.toNat % 2 = 1
    · left
      rw [hlog, if_pos hodd, List.append_nil, hboard, Board.input, if_pos hodd]
      exact ⟨rfl, rfl⟩
    · exact .inr ⟨rfl, by rw [hlog, if_neg hodd]⟩
  | output port v => exact .inr ⟨rfl, rfl⟩
  | read | internal => exact .inl ⟨rfl, rfl⟩

theorem latches_step (cpu : Cpu) (w : Watched) :
    (cpu.step w).bus.latches = w.latches ∨
      (cpu.step w).bus.latches = w.latches ++ [w.board.ula.event] := by
  obtain ⟨cs, hcs, hbus⟩ := Request.step.bus_run cpu w
  have hports : (cs.map BusCycle.kind).countP CycleKind.isPort ≤ 1 := by
    rw [Shape.countP_isPort]
    rcases hcs with rfl | hshape
    · exact Nat.zero_le 1
    · exact (Z80.stepShapes_bounds _ hshape).2.2.2
  change (Request.step.run cpu w).bus.latches = _ ∨ (Request.step.run cpu w).bus.latches = _
  rw [hbus]
  exact latches_logged.runAll cs 0 w hports

theorem loads_step (cpu : Cpu) (w : Watched) :
    (cpu.step w).bus.loads = w.loads ∨
      (cpu.step w).bus.loads = w.loads ++ [w.board.ula.shift] := by
  let fetched := Bus.fetch cpu.regs.pc cpu.regs.ir w
  obtain ⟨cs, hcs, hrun⟩ := (Built.execute (decode fetched.1)).runs
    (⟨cpu.pastOpcode.regs, 4, false, fetched.2⟩ : Core Watched)
  have hbus : (cpu.step w).bus = (BusCycle.runAll cs (4, fetched.2)).2 := by
    rw [cpu.step_eq w]
    exact congrArg Prod.snd hrun
  have hfetch := w.board.fetch_watched cpu.regs.pc cpu.regs.ir
  rw [hbus]
  cases hshows : w.board.showsCharacter cpu.regs.pc with
  | true =>
    right
    rw [if_pos hshows] at hfetch
    obtain ⟨bitmap, inverse, hfetched⟩ := hfetch
    -- in the place of a character the processor is given a NOP, which fetches no more
    have hop : fetched.1 = 0 := congrArg Prod.fst hfetched
    have hnone : cs = [] := by
      rw [hop] at hcs
      have hshape : cs.map BusCycle.kind ∈ [[]] := hcs
      simpa using hshape
    have hlog : fetched.2.loads = w.loads ++
        if w.board.showsCharacter cpu.regs.pc then [w.board.ula.shift] else [] := rfl
    rw [hnone, BusCycle.runAll_nil, hlog, if_pos hshows]
  | false =>
    rw [if_neg (by simp [hshows])] at hfetch
    have hboard : fetched.2.board = w.board := hfetch
    have hlog : fetched.2.loads = w.loads := by
      change (w.loads ++ if w.board.showsCharacter cpu.regs.pc then _ else []) = _
      rw [if_neg (by simp [hshows]), List.append_nil]
    have hmem : CycleKind.fetch :: cs.map BusCycle.kind ∈ stepShapes :=
      List.mem_flatMap.mpr ⟨_, Z80.mem_opcodes fetched.1, List.mem_map.mpr ⟨_, hcs, rfl⟩⟩
    have hfetches := (Z80.stepShapes_bounds _ hmem).2.1.2
    rw [List.count_cons_self] at hfetches
    have hrest := loads_logged.runAll cs 4 fetched.2 (Nat.le_of_succ_le_succ hfetches)
    rwa [hboard, hlog] at hrest

/-- No interrupt gives the chip anything. -/
theorem logs_interrupt {q : Request} (hq : q ≠ .step) (cpu : Cpu) (w : Watched) :
    (q.run cpu w).bus.loads = w.loads ∧ (q.run cpu w).bus.latches = w.latches := by
  obtain ⟨cs, hcs, hbus⟩ := q.bus_run cpu w
  obtain ⟨hfetch, hinput, houtput⟩ : Shape.quiet (cs.map BusCycle.kind) := by
    rcases hcs with rfl | hshape
    · exact ⟨rfl, rfl, rfl⟩
    · cases q with
      | step => exact absurd rfl hq
      | interrupt => exact (Z80.interruptShapes_bounds _ hshape).2
      | nmi haltWait =>
        rw [List.mem_singleton.mp hshape]
        exact Z80.nmiShape_quiet.2
  have hports : (cs.map BusCycle.kind).countP CycleKind.isPort = 0 := by
    rw [Shape.countP_isPort, hinput, houtput]
  rw [hbus]
  exact ⟨(loads_logged.runAll_of_none cs (q.start cpu) w hfetch).1,
    (latches_logged.runAll_of_none cs (q.start cpu) w hports).1⟩

end Watched

namespace Machine

/-- The chip has room for a bitmap row between two instructions. -/
theorem free_turn (m : Machine) : m.turn.ula.shift.Free := by
  obtain ⟨t, n, u, hturned⟩ := m.ready.engine.pass_effect m.ready.config m.ready.line
  have hpass : m.ready.pass.ula.shift = ShiftRegister.next^[2 * t] u.shift := by
    have hdrawn : m.ready.pass.ula = _ := congrArg Prod.fst hturned.drawn
    obtain ⟨counter, borrow, row, hclosed⟩ :=
      Ula.close_fst n (u.draw t m.ready.line).1 (u.draw t m.ready.line).2
    rw [hdrawn, hclosed, Ula.draw_fst]
  have htime := hturned.time.1
  have hturn : m.turn.ula.shift = m.ready.pass.ula.shift := by
    rw [m.ula_turn]
    split
    · rw [Ula.restartLine]
    · rfl
  rw [hturn, hpass]
  exact ShiftRegister.free_next u.shift (by omega)

theorem shift_ready (m : Machine) : m.ready.ula.shift = m.ula.shift := by
  have hopen := m.openLine_eq
  unfold ready
  split
  · split at hopen
    · rw [hopen.1]
    · rw [hopen.1]
  · rfl

theorem Run.free {c : Config} {m : ℕ → Machine} (h : Run c m) (k : ℕ) :
    (m k).ula.shift.Free := by
  cases k with
  | zero =>
    rw [h.powerOn.ula]
    exact ⟨rfl, rfl⟩
  | succ k =>
    rw [(h.undisturbed k).ula]
    exact (m k).free_turn

/-- The engine as its next instruction finds it. -/
def poised (m : Machine) : Engine := (m.ready.engine.mapBoard (·.mapUla (·.clearEvent))).load

/-- Nothing that the processor gives the video chip is lost. On any bus an instruction makes one
port access at most. On the main board it notes one port access and loads one bitmap row at most,
an interrupt neither. In every run from power-on, no port access is noted in an instruction before
it, and at every load the low bytes of the shift register are free, so that they hold the bitmap
row after it and nothing else. -/
theorem nothing_lost :
    (∀ {σ : Type} [Bus σ] (cpu : Cpu) (bus : σ),
      (cpu.step (Traced.mk bus #[])).bus.events.toList.countP BusEvent.isPort ≤ 1) ∧
    (∀ (q : Request) (cpu : Cpu) (b : Board),
      let s := q.run cpu (Watched.mk b [] [])
      q.run cpu b = ⟨s.cpu, s.bus.board, s.tstates⟩ ∧ s.bus.loads.length ≤ 1 ∧
        s.bus.latches.length ≤ 1 ∧ (q ≠ .step → s.bus.loads = [] ∧ s.bus.latches = [])) ∧
    ∀ (c : Config) (m : ℕ → Machine), Run c m → ∀ k,
      let w := ((m k).poised.cpu.step (Watched.mk (m k).poised.board [] [])).bus
      (m k).ready.engine.stepped.2.board = w.board ∧ (∀ found ∈ w.latches, found = none) ∧
        ∀ found ∈ w.loads, found.bits.toUInt8 = 0 ∧ found.inverse.toUInt8 = 0 ∧
          ∀ bitmap inverse, (found.load bitmap inverse).bits.toUInt8 = bitmap ∧
            (found.load bitmap inverse).inverse.toUInt8 = bif inverse then 0xFF else 0 := by
  refine ⟨?_, ?_, ?_⟩
  · intro σ _ cpu bus
    exact countP_step cpu bus
  · intro q cpu b s
    refine ⟨Watched.run_board q cpu ⟨b, [], []⟩, ?_, ?_, ?_⟩
    · cases q with
      | step => rcases Watched.loads_step cpu ⟨b, [], []⟩ with h | h <;> simp [s, Request.run, h]
      | interrupt | nmi => simp [s, Watched.logs_interrupt]
    · cases q with
      | step =>
        rcases Watched.latches_step cpu ⟨b, [], []⟩ with h | h <;> simp [s, Request.run, h]
      | interrupt | nmi => simp [s, Watched.logs_interrupt]
    · intro hq
      exact Watched.logs_interrupt hq cpu ⟨b, [], []⟩
  · intro c m h k w
    let e := (m k).poised
    obtain ⟨-, hchip⟩ := ((m k).ready.engine.mapBoard (·.mapUla (·.clearEvent))).load_frame
    have hevent : e.board.ula.event = none := congrArg Ula.event hchip
    have hfree : e.board.ula.shift.Free := by
      have hshift : e.board.ula.shift = (m k).ready.ula.shift :=
        (congrArg Ula.shift hchip).trans rfl
      rw [hshift, shift_ready]
      exact h.free k
    refine ⟨?_, ?_, ?_⟩
    · exact congrArg Stepped.bus (Watched.run_board .step e.cpu ⟨e.board, [], []⟩)
    · intro found hfound
      rcases Watched.latches_step e.cpu ⟨e.board, [], []⟩ with hnone | hone
      · simp [w, e, hnone] at hfound
      · simp only [w, e, hone, List.nil_append, List.mem_singleton] at hfound
        exact hfound.trans hevent
    · intro found hfound
      rcases Watched.loads_step e.cpu ⟨e.board, [], []⟩ with hnone | hone
      · simp [w, e, hnone] at hfound
      · simp only [w, e, hone, List.nil_append, List.mem_singleton] at hfound
        subst hfound
        exact ⟨hfree.1, hfree.2, hfree.load⟩

def smallRom : Config := { romTop := 0x000F, shadowRom := false, displayStart := 0x0040 }

/-- A machine that shows characters, the bitmap of which is all ink. -/
def showing : Machine :=
  let m := (ofConfig smallRom).load 0 [0xFF]
  { m with engine := { m.engine with cpu := { regs := { pc := 0x0040 } } } }

theorem showing_free :
    let m k := turn^[k] showing
    let w := ((m 1).poised.cpu.step (Watched.mk (m 1).poised.board [] [])).bus
    Run smallRom m ∧ w.loads = [⟨0xFF00, 0⟩] ∧
      ∀ found ∈ w.loads, (found.load 0xFF false).bits.toUInt8 = 0xFF := by
  intro m w
  have hrun : Run smallRom m := by
    constructor
    · exact ⟨rfl, rfl, rfl, rfl⟩
    · intro k _
      exact Function.iterate_succ_apply' turn k showing
    · intro k _
      simp only [m, Function.iterate_succ_apply']
      exact ⟨rfl, rfl, rfl, rfl⟩
  refine ⟨hrun, by decide +kernel, ?_⟩
  intro found hfound
  obtain ⟨-, -, hkept⟩ := (nothing_lost.2.2 smallRom m hrun 1).2.2 found hfound
  exact (hkept 0xFF false).1

end Machine
end Zx81
