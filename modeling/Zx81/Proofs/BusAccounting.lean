import Zx81.Bus.Trace
import Zx81.Proofs.InstructionShape

namespace Zx81.Z80

/-- Accesses that are whole machine cycles, the first of which begins at a T-state, up to the
T-state at which the last of them ends. -/
inductive Accounted : Nat → List BusEvent → Nat → Prop
  | done (e : Nat) : Accounted e [] e
  | fetch {e e' w : Nat} {events : List BusEvent} (a refresh : UInt16) (v : UInt8)
      (h : Accounted (e + (4 + w)) events e') :
      Accounted e (.memoryWait a e 4 w :: .fetch a refresh v :: events) e'
  | read {e e' w : Nat} {events : List BusEvent} (a : UInt16) (v : UInt8)
      (h : Accounted (e + (3 + w)) events e') :
      Accounted e (.memoryWait a e 3 w :: .read a v :: events) e'
  | write {e e' w : Nat} {events : List BusEvent} (a : UInt16) (v : UInt8)
      (h : Accounted (e + (3 + w)) events e') :
      Accounted e (.memoryWait a e 3 w :: .write a v :: events) e'
  | input {e e' w : Nat} {events : List BusEvent} (p : UInt16) (v : UInt8)
      (h : Accounted (e + (4 + w)) events e') :
      Accounted e (.portWait p e 4 w :: .input p v :: events) e'
  | output {e e' w : Nat} {events : List BusEvent} (p : UInt16) (v : UInt8)
      (h : Accounted (e + (4 + w)) events e') :
      Accounted e (.portWait p e 4 w :: .output p v :: events) e'
  | internal {e e' w : Nat} {events : List BusEvent} (a : UInt16)
      (h : Accounted (e + (1 + w)) events e') :
      Accounted e (.memoryWait a e 1 w :: events) e'

namespace BusCycle

variable {σ : Type} [Bus σ]

/-- What a traced bus records of a cycle. -/
def events (c : BusCycle) (elapsed wait : Nat) (v : UInt8) : List BusEvent :=
  match c with
  | fetch a refresh => [.memoryWait a elapsed 4 wait, .fetch a refresh v]
  | read a => [.memoryWait a elapsed 3 wait, .read a v]
  | write a x => [.memoryWait a elapsed 3 wait, .write a x]
  | input p => [.portWait p elapsed 4 wait, .input p v]
  | output p x => [.portWait p elapsed 4 wait, .output p x]
  | internal a => [.memoryWait a elapsed 1 wait]

theorem accounted_cons (c : BusCycle) {e e' w : Nat} (v : UInt8) {rest : List BusEvent}
    (h : Accounted (e + (c.kind.tstates + w)) rest e') :
    Accounted e (c.events e w v ++ rest) e' := by
  cases c with
  | fetch a refresh => exact .fetch a refresh v h
  | read a => exact .read a v h
  | write a x => exact .write a x h
  | input p => exact .input p v h
  | output p x => exact .output p x h
  | internal a => exact .internal a h

/-- A cycle on a traced bus is the cycle on the bus itself, and is recorded. -/
theorem run_traced (c : BusCycle) (elapsed : Nat) (bus : Traced σ) :
    let r := c.run (elapsed, bus.bus)
    c.run (elapsed, bus) =
      (r.1, r.2.1, ⟨r.2.2, bus.events ++ c.events elapsed (c.wait elapsed bus.bus).1 r.1⟩) := by
  cases c <;>
    simp [run, wait, access, events, kind, Bus.fetch, Bus.read, Bus.write, Bus.input, Bus.output,
      Bus.memoryWait, Bus.portWait]

def recordAll : List BusCycle → Nat × σ → List BusEvent
  | [], _ => []
  | c :: cs, s => c.events s.1 (c.wait s.1 s.2).1 (c.run s).1 ++ recordAll cs (c.run s).2

theorem runAll_traced (cs : List BusCycle) (elapsed : Nat) (bus : Traced σ) :
    runAll cs (elapsed, bus) =
      ((runAll cs (elapsed, bus.bus)).1,
        ⟨(runAll cs (elapsed, bus.bus)).2, bus.events ++ recordAll cs (elapsed, bus.bus)⟩) := by
  induction cs generalizing elapsed bus with
  | nil => simp [recordAll]
  | cons c cs ih =>
    have happend (xs : Array BusEvent) (ys zs : List BusEvent) :
        xs ++ ys ++ zs = xs ++ (ys ++ zs) := Array.ext' (by simp)
    rw [runAll_cons, run_traced, ih, happend]
    rfl

theorem recordAll_accounted (cs : List BusCycle) (s : Nat × σ) :
    Accounted s.1 (recordAll cs s) (runAll cs s).1 := by
  induction cs generalizing s with
  | nil => exact .done s.1
  | cons c cs ih => exact accounted_cons c _ (ih (c.run s).2)

end BusCycle

variable {σ : Type} [Bus σ]

/-- A clock with a bus that is not traced. -/
def untrace (y : Nat × Traced σ) : Nat × σ := (y.1, y.2.bus)

theorem untrace_alike : Alike fun x (y : Nat × Traced σ) => x = untrace y := by
  rintro c _ ⟨elapsed, bus⟩ rfl
  rw [BusCycle.run_traced]
  exact ⟨rfl, rfl⟩

/-- Tracing a bus changes nothing of what a program does. -/
theorem Built.untraced {holds : Bool} {p : Program Unit} {S : List Shape} (h : Built holds p S)
    (s : Core (Traced σ)) : (p σ (s.onto untrace)).2 = (p (Traced σ) s).2.onto untrace :=
  h.onto untrace_alike s

/-- The accesses of a program, on top of what a traced bus has recorded before. -/
theorem Built.accounted {holds : Bool} {p : Program Unit} {S : List Shape} (h : Built holds p S)
    (s : Core (Traced σ)) :
    ∃ recorded : List BusEvent,
      (p (Traced σ) s).2.bus.events = s.bus.events ++ recorded ∧
        Accounted s.elapsed recorded (p (Traced σ) s).2.elapsed := by
  obtain ⟨cs, -, hrun⟩ := h.runs s
  rw [BusCycle.runAll_traced] at hrun
  injection hrun with helapsed hbus
  refine ⟨_, congrArg Traced.events hbus, ?_⟩
  rw [helapsed]
  exact BusCycle.recordAll_accounted cs (s.elapsed, s.bus.bus)

/-- The next instruction boundary, after `ticks` T-states before this one. -/
def Core.settle {τ : Type} (s : Core τ) (ticks : Nat) : Stepped τ :=
  ⟨⟨s.regs, s.holdOff, ticks + s.elapsed⟩, s.bus, s.elapsed⟩

theorem Cpu.run_eq_settle {τ : Type} (p : Exec τ Unit) (cpu : Cpu) (bus : τ) :
    Cpu.run p cpu bus = (p ⟨cpu.regs, 0, cpu.holdOff, bus⟩).2.settle cpu.ticks := rfl

/-- A program on a fresh trace is accounted for, and is the program on the bus itself. -/
theorem Built.settled {holds : Bool} {p : Program Unit} {S : List Shape} (h : Built holds p S)
    (regs : Registers) (elapsed : Nat) (holdOff : Bool) (ticks : Nat) (bus : σ) :
    let traced := (p (Traced σ) ⟨regs, elapsed, holdOff, ⟨bus, #[]⟩⟩).2.settle ticks
    Accounted elapsed traced.bus.events.toList traced.tstates ∧
      traced.cpu.ticks = ticks + traced.tstates ∧
      (p σ ⟨regs, elapsed, holdOff, bus⟩).2.settle ticks =
        ⟨traced.cpu, traced.bus.bus, traced.tstates⟩ := by
  refine ⟨?_, rfl, ?_⟩
  · obtain ⟨recorded, hevents, haccounted⟩ := h.accounted ⟨regs, elapsed, holdOff, ⟨bus, #[]⟩⟩
    have hlist : (p (Traced σ) ⟨regs, elapsed, holdOff, ⟨bus, #[]⟩⟩).2.bus.events.toList =
        recorded := by
      rw [hevents]
      simp
    simp only [Core.settle, hlist]
    exact haccounted
  · exact congrArg (Core.settle · ticks) (h.untraced ⟨regs, elapsed, holdOff, ⟨bus, #[]⟩⟩)

/-- What is asked of a processor between two instructions. -/
inductive Request where
  | step
  | interrupt
  | nmi (haltWait : Nat)

namespace Request

def run (q : Request) (cpu : Cpu) (bus : σ) : Stepped σ :=
  match q with
  | step => cpu.step bus
  | interrupt => cpu.interrupt bus
  | nmi haltWait => cpu.nmi bus haltWait

def start (q : Request) (cpu : Cpu) : Nat :=
  match q with
  | nmi haltWait => if cpu.regs.halted then haltWait else 0
  | _ => 0

/-- The wait that leaves a halt comes before the first cycle. -/
theorem nmi_run (haltWait : Nat) (cpu : Cpu) (bus : σ) :
    (nmi haltWait).run cpu bus =
      (Cpu.acceptNmi ⟨cpu.regs, (nmi haltWait).start cpu, cpu.holdOff, bus⟩).2.settle
        cpu.ticks := by
  obtain ⟨regs, holdOff, ticks⟩ := cpu
  have hleave : (Cpu.leaveHalt haltWait (⟨regs, 0, holdOff, bus⟩ : Core σ)).2 =
      ⟨regs, if regs.halted then haltWait else 0, holdOff, bus⟩ := by
    cases h : regs.halted with
    | false => simp only [Cpu.leaveHalt, h, inspect, bind, StateT.bind]; rfl
    | true => simp only [Cpu.leaveHalt, h, inspect, bind, StateT.bind, if_true, idle, Nat.zero_add]
  change (Cpu.acceptNmi (Cpu.leaveHalt haltWait
    (⟨regs, 0, holdOff, bus⟩ : Core σ)).2).2.settle ticks = _
  rw [hleave]
  rfl

/-- The shapes that the cycles of a request may have. -/
def shapes : Request → List Shape
  | step => stepShapes
  | interrupt => interruptShapes
  | nmi _ => [nmiShape]

/-- A request runs a program of machine cycles, or it is an interrupt that is not accepted. -/
theorem run_built (q : Request) (cpu : Cpu) :
    (q.start cpu = 0 ∧ ∀ {σ : Type} [Bus σ] (bus : σ), q.run cpu bus = ⟨cpu, bus, 0⟩) ∨
      ∃ (p : Program Unit) (holdOff holds : Bool), Built holds p q.shapes ∧
        ∀ {σ : Type} [Bus σ] (bus : σ),
          q.run cpu bus = (p σ ⟨cpu.regs, q.start cpu, holdOff, bus⟩).2.settle cpu.ticks := by
  cases q with
  | step => exact .inr ⟨_, false, true, Built.step, fun _ => rfl⟩
  | interrupt =>
    cases h : cpu.accepts with
    | false =>
      refine .inl ⟨rfl, ?_⟩
      intro σ _ bus
      simp [run, Cpu.interrupt, h]
    | true =>
      right
      refine ⟨_, cpu.holdOff, false, Built.acceptInterrupt, ?_⟩
      intro σ _ bus
      simp only [run, Cpu.interrupt, h, if_true]
      rfl
  | nmi haltWait => exact .inr ⟨_, cpu.holdOff, false, Built.acceptNmi, nmi_run haltWait cpu⟩

/-- What a processor does on a bus is what it does on any bus of which that one is a view. -/
theorem run_view {τ : Type} [Bus τ] {view : τ → σ}
    (hview : Alike fun x (y : Nat × τ) => x = (y.1, view y.2)) (q : Request) (cpu : Cpu) (bus : τ) :
    q.run cpu (view bus) =
      ⟨(q.run cpu bus).cpu, view (q.run cpu bus).bus, (q.run cpu bus).tstates⟩ := by
  rcases q.run_built cpu with ⟨-, hidle⟩ | ⟨p, holdOff, holds, hp, hrun⟩
  · rw [hidle, hidle]
  · rw [hrun, hrun]
    exact congrArg (Core.settle · cpu.ticks)
      (hp.onto hview ⟨cpu.regs, q.start cpu, holdOff, bus⟩)

/-- A request leaves the bus as its machine cycles do. -/
theorem bus_run (q : Request) (cpu : Cpu) (bus : σ) : ∃ cs : List BusCycle,
    (cs = [] ∨ cs.map BusCycle.kind ∈ q.shapes) ∧
      (q.run cpu bus).bus = (BusCycle.runAll cs (q.start cpu, bus)).2 := by
  rcases q.run_built cpu with ⟨-, hidle⟩ | ⟨p, holdOff, holds, hp, hrun⟩
  · refine ⟨[], .inl rfl, ?_⟩
    rw [hidle, BusCycle.runAll_nil]
  · obtain ⟨cs, hshape, hcs⟩ := hp.runs ⟨cpu.regs, q.start cpu, holdOff, bus⟩
    refine ⟨cs, .inr hshape, ?_⟩
    rw [hrun]
    exact congrArg Prod.snd hcs

/-- What a processor does does not hang on its count of T-states. -/
theorem run_ticks (q : Request) (cpu : Cpu) (ticks : Nat) (bus : σ) :
    q.run { cpu with ticks } bus =
      ⟨{ (q.run cpu bus).cpu with ticks := ticks + (q.run cpu bus).tstates }, (q.run cpu bus).bus,
        (q.run cpu bus).tstates⟩ := by
  cases q with
  | step => rfl
  | nmi haltWait => rfl
  | interrupt =>
    have haccepts : ({ cpu with ticks } : Cpu).accepts = cpu.accepts := rfl
    simp only [run, Cpu.interrupt, haccepts]
    split
    · rfl
    · rfl

/-- What every machine cycle keeps of a bus, steps and interrupts keep. -/
theorem invariant {P : σ → Prop} (hP : ∀ (c : BusCycle) t bus, P bus → P (c.run (t, bus)).2.2)
    (q : Request) (cpu : Cpu) {bus : σ} (h : P bus) : P (q.run cpu bus).bus := by
  have hcycles (cs : List BusCycle) (s : Nat × σ) (hs : P s.2) : P (BusCycle.runAll cs s).2 := by
    induction cs generalizing s with
    | nil => exact hs
    | cons c cs ih => exact ih (c.run s).2 (hP c s.1 s.2 hs)
  obtain ⟨cs, -, hbus⟩ := q.bus_run cpu bus
  rw [hbus]
  exact hcycles cs _ h

end Request

/-- The accesses of a step, a maskable or a non-maskable interrupt on any bus are whole machine
cycles. Each is charged at the T-state that all before it led to, waits included; the time the
processor reports is the T-state at which the last of them ends, and is added to its count. -/
theorem accesses_accounted (q : Request) (cpu : Cpu) (bus : σ) :
    let traced := q.run cpu (Traced.mk bus #[])
    Accounted (q.start cpu) traced.bus.events.toList traced.tstates ∧
      traced.cpu.ticks = cpu.ticks + traced.tstates ∧
      q.run cpu bus = ⟨traced.cpu, traced.bus.bus, traced.tstates⟩ := by
  cases q with
  | step =>
    simp only [Request.run, Cpu.step, Cpu.run_eq_settle]
    exact Built.step.settled cpu.regs 0 false cpu.ticks bus
  | interrupt =>
    simp only [Request.run, Cpu.interrupt]
    cases cpu.accepts with
    | false => exact ⟨.done 0, rfl, rfl⟩
    | true =>
      simp only [if_true, Cpu.run_eq_settle]
      exact Built.acceptInterrupt.settled cpu.regs 0 cpu.holdOff cpu.ticks bus
  | nmi haltWait =>
    simp only [Request.nmi_run]
    exact Built.acceptNmi.settled cpu.regs _ cpu.holdOff cpu.ticks bus

end Zx81.Z80
