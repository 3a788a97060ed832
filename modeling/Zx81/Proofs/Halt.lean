import Zx81.Proofs.ControlState
import Zx81.Proofs.FlatStep

namespace Zx81.Z80

variable {σ : Type}

def LeavesBus {α : Type} (p : Exec σ α) : Prop := ∀ s, (p s).2.bus = s.bus

theorem LeavesBus.bind {α β : Type} {p : Exec σ α} {f : α → Exec σ β} (hp : LeavesBus p)
    (hf : ∀ a, LeavesBus (f a)) : LeavesBus (p >>= f) :=
  fun s => (hf _ _).trans (hp s)

variable [Bus σ]

/-- A bus on which waits and reads change nothing, and the fetch of a halt instruction neither
changes anything nor hangs on the refresh address. -/
structure HaltsPlainly (σ : Type) [Bus σ] : Prop where
  wait : ∀ address elapsed t (bus : σ), (Bus.memoryWait address elapsed t bus).2 = bus
  read : ∀ address (bus : σ), (Bus.read address bus).2 = bus
  halt : ∀ address refresh (bus : σ), (Bus.fetch address refresh bus).1 = 0x76 →
    ∀ refresh', Bus.fetch address refresh' bus = (0x76, bus)

/-- An opcode fetch at an address gives the halt instruction. -/
def HaltAt (address : UInt16) (bus : σ) : Prop :=
  ∀ refresh, Bus.fetch address refresh bus = (0x76, bus)

theorem eq_of_decode_halt {op : UInt8} (h : decode op = .halt) : op = 0x76 := by
  have hall : ∀ op, decode op = .halt → op = 0x76 := forall_opcode (by decide +kernel)
  exact hall op h

section Plain

variable {cpu : Cpu} {bus : σ} (hplain : HaltsPlainly σ)

include hplain

theorem leavesBus_internal (address : UInt16) (n : Nat) :
    LeavesBus (internal address n : Exec σ Unit) := by
  induction n with
  | zero => exact fun _ => rfl
  | succ n ih => exact .bind (fun s => hplain.wait address s.elapsed 1 s.bus) fun _ => ih

theorem leavesBus_readByte (address : UInt16) : LeavesBus (readByte address : Exec σ UInt8) :=
  fun s => (hplain.read address _).trans (hplain.wait address s.elapsed 3 s.bus)

/-- A word read from memory, low byte first. -/
theorem readWord_plain (address : UInt16) (s : Core σ) :
    (readWord address s).1 =
        (Pair.mk (Bus.read (address + 1) s.bus).1 (Bus.read address s.bus).1).word ∧
      (readWord address s).2.regs = s.regs ∧ (readWord address s).2.bus = s.bus := by
  have hfirst := leavesBus_readByte hplain address s
  have hwait := hplain.wait address s.elapsed 3 s.bus
  let first := (readByte address s).2
  have hwait' := hplain.wait (address + 1) first.elapsed 3 first.bus
  have hword : (readWord address s).1 =
      (Pair.mk (Bus.read (address + 1)
        (Bus.memoryWait (address + 1) first.elapsed 3 first.bus).2).1
        (Bus.read address (Bus.memoryWait address s.elapsed 3 s.bus).2).1).word := rfl
  have hsecond := leavesBus_readByte hplain (address + 1) first
  refine ⟨?_, rfl, hsecond.trans hfirst⟩
  rw [hword, hwait', hwait]
  exact congrArg (fun bus => (Pair.mk (Bus.read (address + 1) bus).1 _).word) hfirst

/-- A word pushed on the stack, high byte first. -/
theorem push_eq (w : UInt16) (s : Core σ) :
    (push w s).2.regs = { s.regs with sp := s.regs.sp - 2 } ∧
      (push w s).2.bus = Bus.write (s.regs.sp - 2) (Pair.ofWord w).lo
        (Bus.write (s.regs.sp - 1) (Pair.ofWord w).hi s.bus) := by
  have hsp : s.regs.sp - 1 - 1 = s.regs.sp - 2 := by grind
  have hregs : (push w s).2.regs = { s.regs with sp := s.regs.sp - 1 - 1 } := rfl
  have hbus : (push w s).2.bus = Bus.write (s.regs.sp - 1 - 1) (Pair.ofWord w).lo
      (Bus.memoryWait (s.regs.sp - 1 - 1) _ 3 (Bus.write (s.regs.sp - 1) (Pair.ofWord w).hi
        (Bus.memoryWait (s.regs.sp - 1) _ 3 s.bus).2)).2 := rfl
  rw [hregs, hbus, hplain.wait, hplain.wait, hsp]
  exact ⟨rfl, rfl⟩

namespace Cpu

theorem step_haltAt (h : HaltAt cpu.regs.pc bus) :
    let wait := (Bus.memoryWait cpu.regs.pc 0 4 bus).1
    cpu.step bus = ⟨⟨{ cpu.regs.advanceRefresh with halted := true }, false,
      cpu.ticks + (4 + wait)⟩, bus, 4 + wait⟩ := by
  intro wait
  have hdecode : decode 0x76 = .halt := by decide
  have hback : cpu.regs.pc + 1 - 1 = cpu.regs.pc := by grind
  rw [cpu.step_eq bus, hplain.wait, h]
  simp only [hdecode, Instruction.execute, Instruction.perform]
  simp only [Core.settle, update, pastOpcode, hback]
  rfl

/-- Only the halt instruction halts. -/
theorem haltAt_of_halted (hawake : cpu.regs.halted = false)
    (h : (cpu.step bus).cpu.regs.halted) : HaltAt cpu.regs.pc bus := by
  rw [cpu.step_eq bus, hplain.wait] at h
  by_cases hhalt : decode (Bus.fetch cpu.regs.pc cpu.regs.ir bus).1 = .halt
  · exact hplain.halt _ _ _ (eq_of_decode_halt hhalt)
  · have hkept := Instruction.keeps_halted_execute hhalt
      ⟨cpu.pastOpcode.regs, 4 + (Bus.memoryWait cpu.regs.pc 0 4 bus).1, false,
        (Bus.fetch cpu.regs.pc cpu.regs.ir bus).2⟩
    exact absurd (h.symm.trans (hkept.trans hawake)) (by decide)

/-- A halted processor is at a halt instruction. -/
def HaltedAt (cpu : Cpu) (bus : σ) : Prop := cpu.regs.halted → HaltAt cpu.regs.pc bus

theorem HaltedAt.step (h : cpu.HaltedAt bus) : (cpu.step bus).cpu.HaltedAt (cpu.step bus).bus := by
  intro hhalted
  have hat : HaltAt cpu.regs.pc bus := by
    cases hbefore : cpu.regs.halted with
    | true => exact h hbefore
    | false => exact haltAt_of_halted hplain hbefore hhalted
  rw [step_haltAt hplain hat]
  exact hat

/-- What the answer to an interrupt begins with: registers are changed, the acknowledge cycle is
spent, and PC is pushed. -/
theorem pushed_eq (f : Registers → Registers) (n : Nat) (s : Core σ) :
    let pushed := ((do update f; internalRefresh n; push (← inspect (·.pc)) : Exec σ Unit) s).2
    let r := f s.regs
    pushed.regs = { r with sp := r.sp - 2 } ∧
      pushed.bus = Bus.write (r.sp - 2) (Pair.ofWord r.pc).lo
        (Bus.write (r.sp - 1) (Pair.ofWord r.pc).hi s.bus) := by
  intro pushed r
  let spent := (internalRefresh n (⟨r, s.elapsed, s.holdOff, s.bus⟩ : Core σ)).2
  have hregs : spent.regs = r :=
    (Keeps.internalRefresh n : Keeps id (internalRefresh n : Exec σ Unit)) _
  have hbus : spent.bus = s.bus := leavesBus_internal hplain r.ir n _
  have hpushed : pushed = (push spent.regs.pc spent).2 := rfl
  have hpush := push_eq hplain r.pc spent
  rw [hregs, hbus] at hpush
  rw [hpushed, hregs]
  exact hpush

/-- The routine that answers a maskable interrupt: in mode 2 its address is read from the table that
I names. -/
def routine (r : Registers) (bus : σ) : UInt16 :=
  let vector := (Pair.mk r.i 0xFF).word
  if r.im = 2 then (Pair.mk (Bus.read (vector + 1) bus).1 (Bus.read vector bus).1).word else 0x0038

/-- The jump to the routine that answers a maskable interrupt. -/
def toRoutine : Exec σ Unit := do
  if (← inspect (·.im)) = 2 then
    let vector ← inspect fun r => (Pair.mk r.i 0xFF).word
    jumpTo (← readWord vector)
  else
    jumpTo 0x0038

theorem toRoutine_plain (s : Core σ) :
    (toRoutine s).2.regs = { s.regs with pc := routine s.regs s.bus } ∧
      (toRoutine s).2.bus = s.bus := by
  by_cases him : s.regs.im = 2
  · let vector := (Pair.mk s.regs.i 0xFF).word
    obtain ⟨hword, hregs, hbus⟩ := readWord_plain hplain vector s
    have hjump : (toRoutine s).2 = (jumpTo (readWord vector s).1 (readWord vector s).2).2 := by
      simp only [toRoutine, inspect, bind, StateT.bind, if_pos him]
      rfl
    have hroutine : routine s.regs s.bus = (readWord vector s).1 := (if_pos him).trans hword.symm
    rw [hjump, hroutine]
    exact ⟨congrArg (fun r : Registers => { r with pc := (readWord vector s).1 }) hregs, hbus⟩
  · have hjump : (toRoutine s).2 = (jumpTo 0x0038 s).2 := by
      simp only [toRoutine, inspect, bind, StateT.bind, if_neg him]
    have hroutine : routine s.regs s.bus = 0x0038 := if_neg him
    rw [hjump, hroutine]
    exact ⟨rfl, rfl⟩

variable (cpu bus) in
/-- What an accepted interrupt leaves. The routine is looked up when PC has been pushed. -/
theorem interrupt_eq (haccepts : cpu.accepts) :
    let r := { wake cpu.regs with iff1 := false, iff2 := false }.advanceRefresh
    let pushed := Bus.write (r.sp - 2) (Pair.ofWord r.pc).lo
      (Bus.write (r.sp - 1) (Pair.ofWord r.pc).hi bus)
    (cpu.interrupt bus).cpu.regs = { r with sp := r.sp - 2, pc := routine r pushed } ∧
      (cpu.interrupt bus).bus = pushed := by
  intro r pushed
  let s : Core σ := ⟨cpu.regs, 0, cpu.holdOff, bus⟩
  let f (r : Registers) := { wake r with iff1 := false, iff2 := false }.advanceRefresh
  let before := ((do update f; internalRefresh 7; push (← inspect (·.pc)) : Exec σ Unit) s).2
  have hrun : (acceptInterrupt s).2 = (toRoutine before).2 := rfl
  obtain ⟨hregs, hbus⟩ : before.regs = { r with sp := r.sp - 2 } ∧ before.bus = pushed :=
    pushed_eq hplain f 7 s
  obtain ⟨hregs', hbus'⟩ := toRoutine_plain hplain before
  rw [hregs, hbus] at hregs'
  rw [interrupt, if_pos haccepts, run_eq_settle, Core.settle, hrun]
  exact ⟨hregs', hbus'.trans hbus⟩

variable (cpu bus) in
/-- What a non-maskable interrupt leaves. -/
theorem nmi_eq (haltWait : Nat) :
    let r := { wake cpu.regs with iff1 := false }.advanceRefresh
    (cpu.nmi bus haltWait).cpu.regs = { r with sp := r.sp - 2, pc := 0x0066 } ∧
      (cpu.nmi bus haltWait).bus = Bus.write (r.sp - 2) (Pair.ofWord r.pc).lo
        (Bus.write (r.sp - 1) (Pair.ofWord r.pc).hi bus) := by
  intro r
  let s : Core σ := ⟨cpu.regs, (Request.nmi haltWait).start cpu, cpu.holdOff, bus⟩
  let f (r : Registers) := { wake r with iff1 := false }.advanceRefresh
  let pushed := ((do update f; internalRefresh 5; push (← inspect (·.pc)) : Exec σ Unit) s).2
  obtain ⟨hregs, hbus⟩ := pushed_eq hplain f 5 s
  have hrun : cpu.nmi bus haltWait = (jumpTo 0x0066 pushed).2.settle cpu.ticks :=
    Request.nmi_run haltWait cpu bus
  rw [hrun]
  exact ⟨congrArg (fun r => { r with pc := 0x0066 }) hregs, hbus⟩

omit hplain in
theorem wake_of_halted {r : Registers} (h : r.halted) :
    wake r = { r with halted := false, pc := r.pc + 1 } := if_pos h

/-- The processor after an interrupt has ended a halt: the address behind the halt instruction is
on the stack. -/
structure Woken (r : Registers) (bus : σ) (s : Stepped σ) : Prop where
  halted : s.cpu.regs.halted = false
  sp : s.cpu.regs.sp = r.sp - 2
  bus : s.bus = Bus.write (r.sp - 2) (Pair.ofWord (r.pc + 1)).lo
    (Bus.write (r.sp - 1) (Pair.ofWord (r.pc + 1)).hi bus)

theorem woken_interrupt (hhalted : cpu.regs.halted) (haccepts : cpu.accepts) :
    Woken cpu.regs bus (cpu.interrupt bus) := by
  obtain ⟨hregs, hbus⟩ := interrupt_eq cpu bus hplain haccepts
  rw [wake_of_halted hhalted] at hregs hbus
  exact ⟨congrArg Registers.halted hregs, congrArg Registers.sp hregs, hbus⟩

theorem woken_nmi (hhalted : cpu.regs.halted) (haltWait : Nat) :
    Woken cpu.regs bus (cpu.nmi bus haltWait) := by
  obtain ⟨hregs, hbus⟩ := nmi_eq cpu bus hplain haltWait
  rw [wake_of_halted hhalted] at hregs hbus
  exact ⟨congrArg Registers.halted hregs, congrArg Registers.sp hregs, hbus⟩

theorem halted_nmi (haltWait : Nat) : (cpu.nmi bus haltWait).cpu.regs.halted = false :=
  (congrArg Registers.halted (nmi_eq cpu bus hplain haltWait).1).trans (halted_wake cpu.regs)

omit hplain in
theorem HaltedAt.interrupt (h : cpu.HaltedAt bus) :
    (cpu.interrupt bus).cpu.HaltedAt (cpu.interrupt bus).bus := by
  unfold Cpu.interrupt
  split
  · intro hhalted
    rw [run_eq_settle] at hhalted
    exact absurd (hhalted.symm.trans (halted_acceptInterrupt _)) (by decide)
  · exact h

theorem HaltedAt.nmi (haltWait : Nat) :
    (cpu.nmi bus haltWait).cpu.HaltedAt (cpu.nmi bus haltWait).bus := by
  intro hhalted
  exact absurd (hhalted.symm.trans (halted_nmi hplain haltWait)) (by decide)

theorem HaltedAt.request (h : cpu.HaltedAt bus) (q : Request) :
    (q.run cpu bus).cpu.HaltedAt (q.run cpu bus).bus := by
  cases q with
  | step => exact h.step hplain
  | interrupt => exact h.interrupt
  | nmi haltWait => exact .nmi hplain haltWait

/-- A halted processor between two instructions. It fetches the halt instruction again, and does
nothing in a step but count R and the T-states of that fetch, until an interrupt wakes it. -/
structure Resting (wait : Nat) (cpu : Cpu) (bus : σ) : Prop where
  fetch : HaltAt cpu.regs.pc bus
  step : cpu.step bus =
    ⟨⟨cpu.regs.advanceRefresh, false, cpu.ticks + (4 + wait)⟩, bus, 4 + wait⟩
  accesses : (cpu.step (Traced.mk bus #[])).bus.events.toList =
    [.memoryWait cpu.regs.pc 0 4 wait, .fetch cpu.regs.pc cpu.regs.ir 0x76]
  interrupt : cpu.accepts → Woken cpu.regs bus (cpu.interrupt bus)
  refused : ¬cpu.accepts → cpu.interrupt bus = ⟨cpu, bus, 0⟩
  nmi : ∀ haltWait, Woken cpu.regs bus (cpu.nmi bus haltWait)

theorem HaltedAt.resting (h : cpu.HaltedAt bus) (hhalted : cpu.regs.halted) :
    cpu.Resting (Bus.memoryWait cpu.regs.pc 0 4 bus).1 bus := by
  have hat := h hhalted
  refine ⟨hat, ?_, ?_, woken_interrupt hplain hhalted, fun hnot => if_neg hnot,
    woken_nmi hplain hhalted⟩
  · have hsame : { cpu.regs.advanceRefresh with halted := true } = cpu.regs.advanceRefresh := by
      rw [← hhalted]
      rfl
    rw [step_haltAt hplain hat, hsame]
  · let wait := (Bus.memoryWait cpu.regs.pc 0 4 bus).1
    have hwaited : Bus.memoryWait cpu.regs.pc 0 4 (Traced.mk bus #[]) =
        (wait, ⟨bus, #[.memoryWait cpu.regs.pc 0 4 wait]⟩) :=
      congrArg (fun b => (wait, Traced.mk b #[.memoryWait cpu.regs.pc 0 4 wait]))
        (hplain.wait cpu.regs.pc 0 4 bus)
    have hfetched (events : Array BusEvent) :
        Bus.fetch cpu.regs.pc cpu.regs.ir (Traced.mk bus events) =
          (0x76, ⟨bus, events.push (.fetch cpu.regs.pc cpu.regs.ir 0x76)⟩) :=
      congrArg (fun fetched => (fetched.1, Traced.mk fetched.2
        (events.push (.fetch cpu.regs.pc cpu.regs.ir fetched.1)))) (hat cpu.regs.ir)
    have hdecode : decode 0x76 = .halt := by decide
    rw [step_eq, hwaited, hfetched, hdecode]
    rfl

end Cpu
end Plain

/-- What is done to a processor between two instructions. -/
inductive Stimulus where
  | request (q : Request)
  | reset

namespace Cpu

def react (s : Cpu × σ) : Stimulus → Cpu × σ
  | .request q => ((q.run s.1 s.2).cpu, (q.run s.1 s.2).bus)
  | .reset => (s.1.reset, s.2)

theorem haltedAt_react (hplain : HaltsPlainly σ) {s : Cpu × σ} (h : s.1.HaltedAt s.2)
    (stimulus : Stimulus) : (react s stimulus).1.HaltedAt (react s stimulus).2 := by
  cases stimulus with
  | reset => exact fun hhalted => nomatch hhalted
  | request q => exact h.request hplain q

theorem haltedAt_foldl (hplain : HaltsPlainly σ) {s : Cpu × σ} (h : s.1.HaltedAt s.2)
    (stimuli : List Stimulus) : (stimuli.foldl react s).1.HaltedAt (stimuli.foldl react s).2 := by
  induction stimuli generalizing s with
  | nil => exact h
  | cons stimulus stimuli ih => exact ih (haltedAt_react hplain h stimulus)

end Cpu

theorem haltsPlainly_flatBus : HaltsPlainly FlatBus where
  wait _ _ _ _ := rfl
  read _ _ := rfl
  halt _ _ _ h _ := Prod.ext h rfl

end Zx81.Z80
