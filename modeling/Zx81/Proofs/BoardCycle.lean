import Zx81.Machine.Engine
import Zx81.Proofs.RequestTrace

namespace Zx81

open Video (Ula PortEvent)
open Z80 (BusCycle CycleKind Shape)

/-- The port access by which the video chip sees a cycle: of inputs, it sees even ports. -/
def Z80.BusCycle.portEvent? : BusCycle → Option PortEvent
  | .input port => if port.toNat % 2 = 1 then none else some (.input port)
  | .output port _ => some (.output port)
  | _ => none

/-- The last port access among cycles that come after another. -/
def lastPortEvent (before : Option PortEvent) (cs : List BusCycle) : Option PortEvent :=
  cs.foldl (fun event c => c.portEvent?.or event) before

namespace Board

/-- A cycle on the board takes no longer than it asks for. -/
theorem run_cycle (c : BusCycle) (elapsed : Nat) (b : Board) :
    (c.run (elapsed, b)).2.1 = elapsed + c.kind.tstates := by
  cases c <;> rfl

theorem ula_fetchDisplay (b : Board) (a refresh : UInt16) :
    ∃ shift, (b.fetchDisplay a refresh).2.ula = { b.ula with shift } := by
  unfold fetchDisplay
  simp only
  split
  · exact ⟨_, rfl⟩
  · exact ⟨_, rfl⟩

theorem ula_write (a : UInt16) (v : UInt8) (b : Board) : (write a v b).ula = b.ula := by
  unfold write
  simp only
  split
  · split <;> rfl
  · rfl

/-- Of the video chip a cycle reaches the shift register and the noted port access. -/
theorem ula_cycle (c : BusCycle) (elapsed : Nat) (b : Board) :
    ∃ shift, (c.run (elapsed, b)).2.2.ula =
      { b.ula with shift, event := c.portEvent?.or b.ula.event } := by
  cases c with
  | fetch a refresh =>
    change ∃ shift, (b.fetch a refresh).2.ula = { b.ula with shift }
    unfold fetch
    split
    · exact ula_fetchDisplay b a refresh
    · exact ⟨_, rfl⟩
  | read a => exact ⟨_, rfl⟩
  | write a v => exact ⟨_, ula_write a v b⟩
  | input port =>
    change ∃ shift, (b.input port).2.ula = _
    refine ⟨b.ula.shift, ?_⟩
    by_cases h : port.toNat % 2 = 1
    · simp [input, BusCycle.portEvent?, h]
    · simp only [input, BusCycle.portEvent?, h, if_false]
      rfl
  | output port v => exact ⟨_, rfl⟩
  | internal a => exact ⟨_, rfl⟩

theorem runAll_board (cs : List BusCycle) (elapsed : Nat) (b : Board) :
    (BusCycle.runAll cs (elapsed, b)).1 = elapsed + Shape.tstates (cs.map BusCycle.kind) ∧
      ∃ shift, (BusCycle.runAll cs (elapsed, b)).2.ula =
        { b.ula with shift, event := lastPortEvent b.ula.event cs } := by
  induction cs generalizing elapsed b with
  | nil => exact ⟨rfl, _, rfl⟩
  | cons c cs ih =>
    obtain ⟨shift, hula⟩ := ula_cycle c elapsed b
    obtain ⟨helapsed, shift', hula'⟩ := ih (c.run (elapsed, b)).2.1 (c.run (elapsed, b)).2.2
    constructor
    · rw [BusCycle.runAll_cons, helapsed, run_cycle]
      simp [Shape.tstates, Nat.add_assoc]
    · refine ⟨shift', ?_⟩
      rw [BusCycle.runAll_cons, hula', hula]
      rfl

end Board

/-- The port access by which the video chip sees a recorded access. -/
def BusEvent.portEvent? : BusEvent → Option PortEvent
  | .input port _ => if port.toNat % 2 = 1 then none else some (.input port)
  | .output port _ => some (.output port)
  | _ => none

theorem BusEvent.portEvent?_eq_output {event : BusEvent} {port : UInt16} :
    event.portEvent? = some (.output port) ↔ ∃ v, event = .output port v := by
  cases event <;> simp [portEvent?]

theorem BusEvent.portEvent?_eq_input {event : BusEvent} {port : UInt16} :
    event.portEvent? = some (.input port) ↔ port.toNat % 2 = 0 ∧ ∃ v, event = .input port v := by
  cases event with
  | input p v =>
    by_cases h : p.toNat % 2 = 1
    · have hne : ¬(port.toNat % 2 = 0 ∧ p = port) := by
        rintro ⟨he, rfl⟩
        omega
      simpa [portEvent?, h] using hne
    · have he : p.toNat % 2 = 0 := by omega
      simp only [portEvent?, h, if_false, Option.some.injEq, PortEvent.input.injEq,
        BusEvent.input.injEq]
      constructor
      · rintro rfl
        exact ⟨he, v, rfl, rfl⟩
      · rintro ⟨-, _, rfl, -⟩
        rfl
  | _ => simp [portEvent?]

theorem Z80.BusCycle.filterMap_events (c : BusCycle) (elapsed wait : Nat) (v : UInt8) :
    (c.events elapsed wait v).filterMap BusEvent.portEvent? = c.portEvent?.toList := by
  cases c with
  | input port =>
    by_cases h : port.toNat % 2 = 1 <;>
      simp [BusCycle.events, BusCycle.portEvent?, BusEvent.portEvent?, List.filterMap_cons, h]
  | _ => rfl

theorem Z80.BusCycle.filterMap_cons (c : BusCycle) (cs : List BusCycle) :
    (c :: cs).filterMap BusCycle.portEvent? =
      c.portEvent?.toList ++ cs.filterMap BusCycle.portEvent? := by
  cases h : c.portEvent? <;> simp [h]

/-- The record of cycles has the port accesses of the cycles. -/
theorem filterMap_recordAll {σ : Type} [Bus σ] (cs : List BusCycle) (s : Nat × σ) :
    (BusCycle.recordAll cs s).filterMap BusEvent.portEvent? =
      cs.filterMap BusCycle.portEvent? := by
  induction cs generalizing s with
  | nil => rfl
  | cons c cs ih =>
    rw [BusCycle.recordAll, List.filterMap_append, ih, BusCycle.filterMap_events,
      BusCycle.filterMap_cons]

theorem length_filterMap_portEvent (cs : List BusCycle) :
    (cs.filterMap BusCycle.portEvent?).length ≤
      (cs.map BusCycle.kind).count .input + (cs.map BusCycle.kind).count .output := by
  induction cs with
  | nil => exact Nat.le_refl 0
  | cons c cs ih =>
    have hc : c.portEvent?.toList.length ≤ [c.kind].count .input + [c.kind].count .output := by
      cases c with
      | input port =>
        by_cases h : port.toNat % 2 = 1 <;> simp [BusCycle.portEvent?, BusCycle.kind, h]
      | _ => simp [BusCycle.portEvent?, BusCycle.kind]
    have hkinds : (c :: cs).map BusCycle.kind = [c.kind] ++ cs.map BusCycle.kind := rfl
    rw [BusCycle.filterMap_cons, hkinds, List.count_append, List.count_append, List.length_append]
    omega

theorem lastPortEvent_eq (cs : List BusCycle) (before : Option PortEvent) :
    lastPortEvent before cs = (cs.filterMap BusCycle.portEvent?).getLast?.or before := by
  induction cs generalizing before with
  | nil => rfl
  | cons c cs ih =>
    rw [BusCycle.filterMap_cons, List.getLast?_append, Option.or_assoc]
    change lastPortEvent (c.portEvent?.or before) cs = _
    rw [ih]
    cases c.portEvent? <;> rfl

/-- Among cycles with at most one port access, the last is any. -/
theorem lastPortEvent_eq_some_iff {σ : Type} [Bus σ] {cs : List BusCycle} (s : Nat × σ)
    (h : (cs.map BusCycle.kind).count .input + (cs.map BusCycle.kind).count .output ≤ 1)
    (event : PortEvent) :
    lastPortEvent none cs = some event ↔
      ∃ access ∈ BusCycle.recordAll cs s, access.portEvent? = some event := by
  have hlength := Nat.le_trans (length_filterMap_portEvent cs) h
  rw [lastPortEvent_eq, Option.or_none, ← List.mem_filterMap, filterMap_recordAll]
  match cs.filterMap BusCycle.portEvent?, hlength with
  | [], _ => simp
  | [x], _ => simp [eq_comm]

end Zx81
