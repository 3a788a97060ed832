import Mathlib.Algebra.GroupWithZero.Nat
import Zx81.Proofs.BusAccounting

namespace Zx81

namespace BusEvent

/-- The address and the refresh address of an opcode fetch. -/
def fetch? : BusEvent → Option (UInt16 × UInt16)
  | fetch a refresh _ => some (a, refresh)
  | _ => none

def isWrite : BusEvent → Bool
  | write .. => true
  | _ => false

/-- The T-states that a cycle asks for. -/
def requested : BusEvent → Nat
  | memoryWait _ _ requested _ | portWait _ _ requested _ => requested
  | _ => 0

/-- The wait states that a cycle is given beyond them. -/
def waited : BusEvent → Nat
  | memoryWait _ _ _ wait | portWait _ _ _ wait => wait
  | _ => 0

end BusEvent

namespace Traced

variable {σ : Type}

def fetches (bus : Traced σ) : List (UInt16 × UInt16) :=
  bus.events.toList.filterMap BusEvent.fetch?

/-- The number of bytes that have been written to memory. -/
def writes (bus : Traced σ) : Nat := bus.events.toList.countP BusEvent.isWrite

def requested (bus : Traced σ) : Nat := (bus.events.toList.map BusEvent.requested).sum

def waited (bus : Traced σ) : Nat := (bus.events.toList.map BusEvent.waited).sum

end Traced

namespace Z80

namespace BusCycle

variable {σ : Type} [Bus σ]

/-- Accesses of a sort are counted by the kinds of the cycles. -/
theorem countP_recordAll {P : BusEvent → Bool} {K : CycleKind → Bool}
    (h : ∀ (c : BusCycle) elapsed wait v,
      (c.events elapsed wait v).countP P = [c.kind].countP K)
    (cs : List BusCycle) (s : Nat × σ) :
    (recordAll cs s).countP P = (cs.map kind).countP K := by
  induction cs generalizing s with
  | nil => rfl
  | cons c cs ih =>
    have hkinds : (c :: cs).map kind = [c.kind] ++ cs.map kind := rfl
    rw [recordAll, List.countP_append, h, ih, hkinds, List.countP_append]

theorem length_fetches_recordAll (cs : List BusCycle) (s : Nat × σ) :
    ((recordAll cs s).filterMap BusEvent.fetch?).length = (cs.map kind).count .fetch := by
  rw [List.length_filterMap_eq_countP]
  exact countP_recordAll (fun c _ _ _ => by cases c <;> rfl) cs s

theorem countP_isWrite_recordAll (cs : List BusCycle) (s : Nat × σ) :
    (recordAll cs s).countP BusEvent.isWrite = (cs.map kind).count .write :=
  countP_recordAll (fun c _ _ _ => by cases c <;> rfl) cs s

/-- The T-states asked for are those of the shape. -/
theorem requested_recordAll (cs : List BusCycle) (s : Nat × σ) :
    ((recordAll cs s).map BusEvent.requested).sum = Shape.tstates (cs.map kind) := by
  induction cs generalizing s with
  | nil => rfl
  | cons c cs ih =>
    have hfirst (elapsed wait : Nat) (v : UInt8) :
        ((c.events elapsed wait v).map BusEvent.requested).sum = c.kind.tstates := by
      cases c <;> rfl
    rw [recordAll, List.map_append, List.sum_append, hfirst, ih]
    rfl

/-- Cycles take the T-states that they ask for and the wait states. -/
theorem elapsed_runAll (cs : List BusCycle) (s : Nat × σ) :
    (runAll cs s).1 = s.1 + ((recordAll cs s).map BusEvent.requested).sum +
      ((recordAll cs s).map BusEvent.waited).sum := by
  induction cs generalizing s with
  | nil => rfl
  | cons c cs ih =>
    have hfirst (elapsed wait : Nat) (v : UInt8) :
        ((c.events elapsed wait v).map BusEvent.requested).sum = c.kind.tstates ∧
          ((c.events elapsed wait v).map BusEvent.waited).sum = wait := by
      cases c <;> exact ⟨rfl, rfl⟩
    obtain ⟨hrequested, hwaited⟩ := hfirst s.1 (c.wait s.1 s.2).1 (c.run s).1
    have hrun : (c.run s).2.1 = s.1 + (c.kind.tstates + (c.wait s.1 s.2).1) := rfl
    rw [runAll_cons, ih, hrun]
    simp only [recordAll, List.map_append, List.sum_append, hrequested, hwaited]
    omega

end BusCycle

variable {σ : Type} [Bus σ]

namespace Built

variable {holds : Bool} {α : Type} {p : Program α} {S : List Shape} (h : Built holds p S)

include h

/-- What a traced bus records of a program is the record of cycles of one of its shapes. -/
theorem recorded (s : Core (Traced σ)) : ∃ cs : List BusCycle, cs.map BusCycle.kind ∈ S ∧
    (p (Traced σ) s).2.elapsed = (BusCycle.runAll cs (s.elapsed, s.bus.bus)).1 ∧
      (p (Traced σ) s).2.bus = ⟨(BusCycle.runAll cs (s.elapsed, s.bus.bus)).2,
        s.bus.events ++ BusCycle.recordAll cs (s.elapsed, s.bus.bus)⟩ := by
  obtain ⟨cs, hcs, hrun⟩ := h.runs s
  rw [BusCycle.runAll_traced] at hrun
  exact ⟨cs, hcs, congrArg Prod.fst hrun, congrArg Prod.snd hrun⟩

/-- A program without an opcode fetch in its shapes makes none. -/
theorem fetches_eq (hS : ∀ shape ∈ S, shape.count .fetch = 0) (s : Core (Traced σ)) :
    (p (Traced σ) s).2.bus.fetches = s.bus.fetches := by
  obtain ⟨cs, hcs, -, hbus⟩ := h.recorded s
  have hlength := BusCycle.length_fetches_recordAll cs (s.elapsed, s.bus.bus)
  rw [hS _ hcs] at hlength
  have hnone := List.eq_nil_of_length_eq_zero hlength
  simp [Traced.fetches, hbus, hnone]

/-- A program whose shapes amount to one time asks for it. -/
theorem requested_eq {t : Nat} (hS : ∀ shape ∈ S, shape.tstates = t) (s : Core (Traced σ)) :
    (p (Traced σ) s).2.bus.requested = s.bus.requested + t := by
  obtain ⟨cs, hcs, -, hbus⟩ := h.recorded s
  simp [Traced.requested, hbus, BusCycle.requested_recordAll, hS _ hcs]

/-- A program takes the T-states that it asks for and the wait states. -/
theorem elapsed_eq {s : Core (Traced σ)} (hfresh : s.bus.events = #[]) :
    (p (Traced σ) s).2.elapsed = s.elapsed + (p (Traced σ) s).2.bus.requested +
      (p (Traced σ) s).2.bus.waited := by
  obtain ⟨cs, -, helapsed, hbus⟩ := h.recorded s
  simp only [Traced.requested, Traced.waited, hbus, hfresh, helapsed, BusCycle.elapsed_runAll]
  simp

end Built

namespace Request

/-- What a traced bus records of a request. -/
def trace (q : Request) (cpu : Cpu) (bus : σ) : Traced σ := (q.run cpu (Traced.mk bus #[])).bus

/-- Tracing changes nothing of what a request does. -/
theorem run_untraced (q : Request) (cpu : Cpu) (traced : Traced σ) :
    q.run cpu traced.bus =
      ⟨(q.run cpu traced).cpu, (q.run cpu traced).bus.bus, (q.run cpu traced).tstates⟩ :=
  q.run_view untrace_alike cpu traced

/-- A request takes the T-states that it asks for and the wait states, on top of the wait that
leaves a halt. -/
theorem tstates_eq (q : Request) (cpu : Cpu) (bus : σ) :
    (q.run cpu bus).tstates =
      q.start cpu + (q.trace cpu bus).requested + (q.trace cpu bus).waited := by
  rw [q.run_untraced cpu ⟨bus, #[]⟩]
  rcases q.run_built cpu with ⟨hstart, hidle⟩ | ⟨p, holdOff, holds, hp, hrun⟩
  · rw [trace, hidle, hstart]
    rfl
  · rw [trace, hrun]
    exact hp.elapsed_eq (s := ⟨cpu.regs, q.start cpu, holdOff, ⟨bus, #[]⟩⟩) rfl

end Request

/-- What a step does to clock and bus, and to a trace. -/
theorem Cpu.step_recorded (cpu : Cpu) (bus : σ) :
    ∃ cs : List BusCycle, cs.map BusCycle.kind ∈ stepShapes ∧
      ((cpu.step bus).tstates, (cpu.step bus).bus) = BusCycle.runAll cs (0, bus) ∧
      (cpu.step (Traced.mk bus #[])).bus.events.toList = BusCycle.recordAll cs (0, bus) := by
  obtain ⟨cs, hcs, helapsed, hbus⟩ := Built.step.recorded
    (⟨cpu.regs, 0, false, ⟨bus, #[]⟩⟩ : Core (Traced σ))
  have huntraced : cpu.step bus = _ := Request.step.run_untraced cpu ⟨bus, #[]⟩
  refine ⟨cs, hcs, ?_, ?_⟩
  · rw [huntraced]
    exact Prod.ext helapsed (congrArg Traced.bus hbus)
  · simp [Cpu.step, Cpu.run_eq_settle, Core.settle, hbus]

end Z80
end Zx81
