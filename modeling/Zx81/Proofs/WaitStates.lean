import Zx81.Proofs.Halt
import Zx81.Proofs.RequestTrace

namespace Zx81

open Z80 (BusCycle CycleKind Alike Request Cpu Core Stepped Stimulus)

def BusEvent.isMemoryWait : BusEvent → Bool
  | memoryWait .. => true
  | _ => false

def Traced.memoryCycles {σ : Type} (bus : Traced σ) : Nat :=
  bus.events.toList.countP BusEvent.isMemoryWait

/-- The bus with other wait states. -/
def FlatBus.waiting (waitStates : Nat) (bus : FlatBus) : FlatBus := { bus with waitStates }

namespace Z80

def CycleKind.memory : CycleKind → Nat
  | input | output => 0
  | _ => 1

namespace BusCycle

theorem countP_events (c : BusCycle) (elapsed wait : Nat) (v : UInt8) :
    (c.events elapsed wait v).countP BusEvent.isMemoryWait = c.kind.memory := by
  cases c <;> rfl

theorem wait_flat (c : BusCycle) (elapsed : Nat) (bus : FlatBus) :
    c.wait elapsed bus = (bus.waitStates * c.kind.memory, bus) := by
  cases c <;> simp [wait, kind, CycleKind.memory, Bus.memoryWait, Bus.portWait]

theorem access_waiting (c : BusCycle) (bus : FlatBus) (w : Nat) :
    c.access (bus.waiting w) = ((c.access bus).1, (c.access bus).2.waiting w) := by
  cases c <;> rfl

theorem waitStates_access (c : BusCycle) (bus : FlatBus) :
    (c.access bus).2.waitStates = bus.waitStates := by
  cases c <;> rfl

end BusCycle

/-- Two clocks with traced buses that have done the same, the second with other wait states. -/
structure Delayed (w w' : Nat) (x y : Nat × Traced FlatBus) : Prop where
  waitStates : x.2.bus.waitStates = w
  bus : y.2.bus = x.2.bus.waiting w'
  cycles : y.2.memoryCycles = x.2.memoryCycles
  clock : y.1 + w * x.2.memoryCycles = x.1 + w' * x.2.memoryCycles

theorem delayed_start (bus : FlatBus) (w' t : Nat) :
    Delayed bus.waitStates w' (t, ⟨bus, #[]⟩) (t, ⟨bus.waiting w', #[]⟩) := by
  constructor <;> simp [Traced.memoryCycles]

theorem BusCycle.run_tracedFlat (c : BusCycle) (t : Nat) (bus : Traced FlatBus) :
    let r := c.run (t, bus)
    r.1 = (c.access bus.bus).1 ∧ r.2.2.bus = (c.access bus.bus).2 ∧
      r.2.1 = t + c.kind.tstates + bus.bus.waitStates * c.kind.memory ∧
      r.2.2.memoryCycles = bus.memoryCycles + c.kind.memory := by
  intro r
  have hrun : r = _ := c.run_traced t bus
  have hclock : (c.run (t, bus.bus)).2.1 =
      t + c.kind.tstates + bus.bus.waitStates * c.kind.memory := by
    simp only [BusCycle.run, c.wait_flat, Nat.add_assoc]
  have haccess : (c.run (t, bus.bus)).1 = (c.access bus.bus).1 ∧
      (c.run (t, bus.bus)).2.2 = (c.access bus.bus).2 := by
    simp only [BusCycle.run, c.wait_flat, and_self]
  rw [hrun]
  refine ⟨haccess.1, haccess.2, hclock, ?_⟩
  simp [Traced.memoryCycles, c.countP_events]

theorem delayed_alike (w w' : Nat) : Alike (Delayed w w') := by
  rintro c ⟨t, bus⟩ ⟨t', bus'⟩ ⟨hwait, hbus, hcycles, hclock⟩
  obtain ⟨hbyte, hnext, htime, hcount⟩ := c.run_tracedFlat t bus
  obtain ⟨hbyte', hnext', htime', hcount'⟩ := c.run_tracedFlat t' bus'
  simp only at hwait hbus hcycles hclock
  rw [hbus, c.access_waiting] at hbyte' hnext'
  have hkept : bus'.bus.waitStates = w' := congrArg FlatBus.waitStates hbus
  refine ⟨hbyte.trans hbyte'.symm, ?_, ?_, ?_, ?_⟩
  · rw [hnext, c.waitStates_access, hwait]
  · rw [hnext', hnext]
  · rw [hcount', hcount, hcycles]
  · rw [htime', htime, hcount, hwait, hkept, Nat.mul_add, Nat.mul_add]
    omega

theorem Request.run_waiting (q : Request) (cpu : Cpu) (bus : FlatBus) (w' : Nat) :
    let r := q.run cpu (Traced.mk bus #[])
    let r' := q.run cpu (Traced.mk (bus.waiting w') #[])
    r'.cpu.regs = r.cpu.regs ∧ r'.cpu.holdOff = r.cpu.holdOff ∧
      Delayed bus.waitStates w' (r.tstates, r.bus) (r'.tstates, r'.bus) := by
  intro r r'
  rcases q.run_built cpu with ⟨-, hidle⟩ | ⟨p, holdOff, holds, hp, hrun⟩
  · have hr : r = _ := hidle (Traced.mk bus #[])
    have hr' : r' = _ := hidle (Traced.mk (bus.waiting w') #[])
    rw [hr, hr']
    exact ⟨rfl, rfl, delayed_start bus w' 0⟩
  · have hr : r = _ := hrun (Traced.mk bus #[])
    have hr' : r' = _ := hrun (Traced.mk (bus.waiting w') #[])
    have hstart : Core.Matches (Delayed bus.waitStates w')
        ⟨cpu.regs, q.start cpu, holdOff, ⟨bus, #[]⟩⟩
        ⟨cpu.regs, q.start cpu, holdOff, ⟨bus.waiting w', #[]⟩⟩ :=
      ⟨rfl, rfl, delayed_start bus w' (q.start cpu)⟩
    obtain ⟨-, hregs, hholdOff, hbus⟩ := hp.together (delayed_alike bus.waitStates w') hstart
    rw [hr, hr']
    exact ⟨hregs.symm, hholdOff.symm, hbus⟩

namespace Stimulus

/-- What is done to a processor, with the T-states that it answers; a reset takes none. -/
def run {σ : Type} [Bus σ] (stimulus : Stimulus) (s : Cpu × σ) : Stepped σ :=
  match stimulus with
  | request q => q.run s.1 s.2
  | reset => ⟨s.1.reset, s.2, 0⟩

theorem react_eq {σ : Type} [Bus σ] (stimulus : Stimulus) (s : Cpu × σ) :
    Cpu.react s stimulus = ((stimulus.run s).cpu, (stimulus.run s).bus) := by
  cases stimulus <;> rfl

/-- The number of memory cycles that are charged while it is done. -/
def memoryCycles {σ : Type} [Bus σ] (stimulus : Stimulus) (s : Cpu × σ) : Nat :=
  (stimulus.run (s.1, Traced.mk s.2 #[])).bus.memoryCycles

end Stimulus

/-- The same states but for the T-states counted and the wait states of the bus. -/
structure SameButTime (w w' : Nat) (s s' : Cpu × FlatBus) : Prop where
  regs : s'.1.regs = s.1.regs
  holdOff : s'.1.holdOff = s.1.holdOff
  waitStates : s.2.waitStates = w
  bus : s'.2 = s.2.waiting w'

structure DelayedCall (w w' : Nat) (stimulus : Stimulus) (s s' : Cpu × FlatBus) : Prop where
  after : SameButTime w w' (Cpu.react s stimulus) (Cpu.react s' stimulus)
  cycles : stimulus.memoryCycles s' = stimulus.memoryCycles s
  tstates : (stimulus.run s').tstates + w * stimulus.memoryCycles s =
    (stimulus.run s).tstates + w' * stimulus.memoryCycles s

theorem SameButTime.call {w w' : Nat} {s s' : Cpu × FlatBus} (h : SameButTime w w' s s')
    (stimulus : Stimulus) : DelayedCall w w' stimulus s s' := by
  obtain ⟨cpu, bus⟩ := s
  obtain ⟨⟨regs, holdOff, ticks⟩, bus'⟩ := s'
  obtain ⟨hregs, hholdOff, hwait, hbus⟩ := h
  simp only at hregs hholdOff hwait hbus
  subst hregs hholdOff hwait hbus
  cases stimulus with
  | reset => exact ⟨⟨rfl, rfl, rfl, rfl⟩, rfl, rfl⟩
  | request q =>
    -- The traced runs count the memory cycles; without the trace the answers are the same.
    let traced := q.run cpu (Traced.mk bus #[])
    let traced' := q.run cpu (Traced.mk (bus.waiting w') #[])
    obtain ⟨hregs, hholdOff, hwaits, hnext, hcycles, hclock⟩ := q.run_waiting cpu bus w'
    have hfast : q.run cpu bus = ⟨traced.cpu, traced.bus.bus, traced.tstates⟩ :=
      q.run_untraced cpu ⟨bus, #[]⟩
    have hslow : q.run cpu (bus.waiting w') = ⟨traced'.cpu, traced'.bus.bus, traced'.tstates⟩ :=
      q.run_untraced cpu ⟨bus.waiting w', #[]⟩
    -- The second processor may have counted other T-states before; that changes no answer.
    have hlater := q.run_ticks cpu ticks (bus.waiting w')
    have hlaterTraced := q.run_ticks cpu ticks (Traced.mk (bus.waiting w') #[])
    refine ⟨?_, ?_, ?_⟩
    · simp only [Stimulus.react_eq, Stimulus.run]
      rw [hlater, hslow, hfast]
      exact ⟨hregs, hholdOff, hwaits, hnext⟩
    · simp only [Stimulus.memoryCycles, Stimulus.run]
      rw [hlaterTraced]
      exact hcycles
    · simp only [Stimulus.memoryCycles, Stimulus.run]
      rw [hlater, hslow, hfast]
      exact hclock

theorem SameButTime.calls {w w' : Nat} {s s' : Cpu × FlatBus} (h : SameButTime w w' s s')
    (stimuli : List Stimulus) :
    SameButTime w w' (stimuli.foldl Cpu.react s) (stimuli.foldl Cpu.react s') := by
  induction stimuli generalizing s s' with
  | nil => exact h
  | cons stimulus stimuli ih => exact ih (h.call stimulus).after

/-- A processor on two plain buses with the same memory and ports, with `w` and `w'` wait states.
After the same steps, interrupts and resets on both, each further call leaves the same registers,
interrupt state, memory and record of what was sent to ports; it makes the same number of memory
cycles on both, and the T-states that it answers differ by `w' - w` for each of them. -/
theorem waits_cost_time (cpu : Cpu) (bus : FlatBus) (w w' : Nat) (before : List Stimulus)
    (call : Stimulus) :
    let s := before.foldl Cpu.react (cpu, { bus with waitStates := w })
    let s' := before.foldl Cpu.react (cpu, { bus with waitStates := w' })
    let r := call.run s
    let r' := call.run s'
    r'.cpu.regs = r.cpu.regs ∧ r'.cpu.holdOff = r.cpu.holdOff ∧
      r'.bus = { r.bus with waitStates := w' } ∧
      call.memoryCycles s' = call.memoryCycles s ∧
      (r'.tstates : Int) - r.tstates = (w' - w) * call.memoryCycles s := by
  intro s s' r r'
  have hstart : SameButTime w w' (cpu, { bus with waitStates := w })
      (cpu, { bus with waitStates := w' }) := ⟨rfl, rfl, rfl, rfl⟩
  have hcall := (hstart.calls before).call call
  obtain ⟨hregs, hholdOff, -, hbus⟩ := hcall.after
  rw [Stimulus.react_eq, Stimulus.react_eq] at hregs hholdOff hbus
  refine ⟨hregs, hholdOff, hbus, hcall.cycles, ?_⟩
  have htime : (r'.tstates : Int) + w * call.memoryCycles s =
      r.tstates + w' * call.memoryCycles s := by exact_mod_cast hcall.tstates
  rw [Int.sub_mul]
  omega

/-- A load from an address in the program makes four memory cycles and takes 13 T-states. -/
example :
    let bus : FlatBus := { ram := Ram.zero.load 0 [0x3A, 0x00, 0x40], waitStates := 2 }
    (Stimulus.run (.request .step) (({} : Cpu), bus)).tstates = 13 + 2 * 4 := by
  decide +kernel

end Z80
end Zx81
