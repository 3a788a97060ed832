import Zx81.Proofs.Halt

namespace Zx81.Z80

variable {σ : Type}

structure Interrupts where
  iff1 : Bool
  iff2 : Bool
  holdOff : Bool
  deriving DecidableEq

def Core.interrupts (s : Core σ) : Interrupts := ⟨s.regs.iff1, s.regs.iff2, s.holdOff⟩

def Cpu.interrupts (cpu : Cpu) : Interrupts := ⟨cpu.regs.iff1, cpu.regs.iff2, cpu.holdOff⟩

/-- What is done to a processor, as far as the maskable interrupt is concerned. -/
inductive InterruptEvent where
  | enable
  | disable
  /-- A return from an interrupt handler. -/
  | restore
  /-- Any other step. -/
  | other
  | accept
  /-- An interrupt that is not accepted. -/
  | refuse
  | nmi
  | reset
  deriving DecidableEq

namespace InterruptEvent

def isStep : InterruptEvent → Bool
  | enable | disable | restore | other => true
  | accept | refuse | nmi | reset => false

def act : InterruptEvent → Interrupts → Interrupts
  | enable, _ => ⟨true, true, true⟩
  | disable, _ => ⟨false, false, false⟩
  | restore, s => ⟨s.iff2, s.iff2, false⟩
  | other, s => ⟨s.iff1, s.iff2, false⟩
  | accept, s => ⟨false, false, s.holdOff⟩
  | refuse, s => s
  | nmi, s => ⟨false, s.iff2, s.holdOff⟩
  | reset, _ => ⟨false, false, false⟩

/-- What is held off before a step makes no difference to it. -/
theorem act_of_isStep {event : InterruptEvent} (h : event.isStep) (s : Interrupts) :
    event.act { s with holdOff := false } = event.act s := by
  cases event with
  | enable | disable | restore | other => rfl
  | accept | refuse | nmi | reset => cases h

theorem act_other {s : Core σ} (h : s.holdOff = false) :
    other.act s.interrupts = s.interrupts := by
  rw [act, Core.interrupts, h]

end InterruptEvent

/-- The event that an instruction is, given the opcode that would follow on the extended page. -/
def Instruction.event (i : Instruction) (op : UInt8) : InterruptEvent :=
  match i with
  | enableInterrupts => .enable
  | disableInterrupts => .disable
  | extendedPage => if Extended.decode op = .returnInterrupt then .restore else .other
  | _ => .other

theorem Instruction.isStep_event (i : Instruction) (op : UInt8) : (i.event op).isStep := by
  unfold event
  split
  case h_3 => split <;> rfl
  all_goals rfl

section Bus

variable [Bus σ]

def Cpu.stepEvent (cpu : Cpu) (bus : σ) : InterruptEvent :=
  let fetched := fetchOpcode (⟨cpu.regs, 0, false, bus⟩ : Core σ)
  (decode fetched.1).event (fetchOpcode fetched.2).1

def Cpu.event (s : Cpu × σ) : Stimulus → InterruptEvent
  | .request .step => s.1.stepEvent s.2
  | .request .interrupt => if s.1.accepts then .accept else .refuse
  | .request (.nmi _) => .nmi
  | .reset => .reset

theorem Extended.interrupts_perform {e : Extended} (h : e ≠ .returnInterrupt) (s : Core σ) :
    (e.perform s).2.interrupts = s.interrupts := by
  have hkept : Keeps (fun r => (r.iff1, r.iff2)) (e.perform : Exec σ Unit) := by
    cases hcontrols : e.controls with
    | false => exact (Extended.keeps_system hcontrols).map fun r => (r.iff1, r.iff2)
    | true =>
      unfold Extended.perform
      cases e with
      | returnInterrupt => exact absurd rfl h
      | interruptMode im => exact .update fun _ => rfl
      | storeI => exact .bind (.internalRefresh 1) fun _ => .update fun _ => rfl
      | storeR => exact .bind (.internalRefresh 1) fun _ => .update fun _ => rfl
      | _ => cases hcontrols
  have hiff := hkept s
  have hheld : (e.perform s).2.holdOff = s.holdOff := (Built.extended e).leaves_holdOff s
  simp only [Prod.mk.injEq] at hiff
  simp only [Core.interrupts, hiff, hheld]

/-- An instruction of the main page other than these leaves the interrupt state as it is. -/
def Instruction.leavesInterrupts : Instruction → Bool
  | enableInterrupts | disableInterrupts | extendedPage => false
  | _ => true

theorem Instruction.interrupts_perform {i : Instruction} (h : i.leavesInterrupts) (s : Core σ) :
    (i.perform s).2.interrupts = s.interrupts := by
  have hkept : Keeps (fun r => (r.iff1, r.iff2)) (i.perform : Exec σ Unit) := by
    cases hcontrols : i.controls with
    | false => exact (Instruction.keeps_control hcontrols).map fun r => (r.iff1, r.iff2)
    | true =>
      unfold Instruction.perform
      cases i with
      | halt => exact .update fun _ => rfl
      | enableInterrupts | disableInterrupts | extendedPage => cases h
      | _ => cases hcontrols
  have hiff := hkept s
  have hheld : (i.perform s).2.holdOff = s.holdOff := by
    refine (Built.performIf i ?_).leaves_holdOff s
    rintro rfl
    cases h
  simp only [Prod.mk.injEq] at hiff
  simp only [Core.interrupts, hiff, hheld]

/-- The instructions behind a prefix DD or FD leave it too. -/
theorem Instruction.leavesInterrupts_indexed {x : IndexReg} {op : UInt8} {i : Instruction}
    (h : (decode op).indexed x = some i) : i.leavesInterrupts := by
  have hall : ∀ op, ((decode op).indexed x).all Instruction.leavesInterrupts := by
    cases x <;> exact forall_opcode (by decide +kernel)
  have hleaves := hall op
  rwa [h] at hleaves

theorem Instruction.interrupts_execute (i : Instruction) {s : Core σ} (h : s.holdOff = false) :
    (i.execute s).2.interrupts = (i.event (fetchOpcode s).1).act s.interrupts := by
  let fetched := fetchOpcode s
  have hfetched : fetched.2.interrupts = s.interrupts := rfl
  unfold Instruction.execute
  cases i with
  | enableInterrupts => rfl
  | disableInterrupts => exact congrArg (Interrupts.mk false false) h
  | extendedPage =>
    change ((Extended.decode fetched.1).perform fetched.2).2.interrupts = _
    rw [event]
    split
    case isTrue hreturn =>
      rw [hreturn]
      exact congrArg (Interrupts.mk s.regs.iff2 s.regs.iff2) h
    case isFalse hnot =>
      rw [Extended.interrupts_perform hnot, hfetched, InterruptEvent.act_other h]
  | indexPage x =>
    have hbind (f : UInt8 → Exec σ Unit) :
        ((fetchOpcode >>= f) s).2 = (f fetched.1 fetched.2).2 := rfl
    have hother : (Instruction.indexPage x).event fetched.1 = .other := rfl
    rw [hbind, hother, InterruptEvent.act_other h, ← hfetched]
    cases hbehind : (decode fetched.1).indexed x with
    | some i => exact Instruction.interrupts_perform (leavesInterrupts_indexed hbehind) fetched.2
    | none => rfl
  | _ => exact (Instruction.interrupts_perform rfl s).trans (InterruptEvent.act_other h).symm

namespace Cpu

theorem isStep_stepEvent (cpu : Cpu) (bus : σ) : (cpu.stepEvent bus).isStep :=
  Instruction.isStep_event _ _

theorem interrupts_step (cpu : Cpu) (bus : σ) :
    (cpu.step bus).cpu.interrupts = (cpu.stepEvent bus).act cpu.interrupts := by
  let fetched := fetchOpcode (⟨cpu.regs, 0, false, bus⟩ : Core σ)
  have hrun : (cpu.step bus).cpu.interrupts =
      ((decode fetched.1).execute fetched.2).2.interrupts := rfl
  have hstart : fetched.2.interrupts = { cpu.interrupts with holdOff := false } := rfl
  rw [hrun, Instruction.interrupts_execute _ rfl, hstart]
  exact InterruptEvent.act_of_isStep (cpu.isStep_stepEvent bus) cpu.interrupts

theorem interrupts_interrupt (cpu : Cpu) (bus : σ) (h : cpu.accepts) :
    (cpu.interrupt bus).cpu.interrupts = InterruptEvent.accept.act cpu.interrupts := by
  let s : Core σ := ⟨cpu.regs, 0, cpu.holdOff, bus⟩
  have hregs := view_acceptInterrupt (fun r => (r.iff1, r.iff2)) (fun _ _ => rfl)
    (fun _ _ => rfl) s
  have hheld : (acceptInterrupt s).2.holdOff = s.holdOff := Built.acceptInterrupt.leaves_holdOff s
  have hrun : (cpu.interrupt bus).cpu.interrupts = (acceptInterrupt s).2.interrupts := by
    rw [interrupt, if_pos h, run_eq_settle]
    rfl
  simp only [Registers.advanceRefresh, Prod.mk.injEq] at hregs
  rw [hrun, Core.interrupts, hregs.1, hregs.2, hheld]
  rfl

theorem interrupts_nmi (cpu : Cpu) (bus : σ) (haltWait : Nat) :
    (cpu.nmi bus haltWait).cpu.interrupts = InterruptEvent.nmi.act cpu.interrupts := by
  have hrun := Request.nmi_run haltWait cpu bus
  change cpu.nmi bus haltWait = _ at hrun
  have hwake : (wake cpu.regs).iff2 = cpu.regs.iff2 := by rw [wake_eq]
  rw [hrun]
  exact congrArg (Interrupts.mk false · cpu.holdOff) hwake

theorem interrupts_react (s : Cpu × σ) (stimulus : Stimulus) :
    (react s stimulus).1.interrupts = (event s stimulus).act s.1.interrupts := by
  cases stimulus with
  | reset => rfl
  | request q =>
    cases q with
    | step => exact s.1.interrupts_step s.2
    | nmi haltWait => exact s.1.interrupts_nmi s.2 haltWait
    | interrupt =>
      rw [event]
      split
      case isTrue haccepts => exact s.1.interrupts_interrupt s.2 haccepts
      case isFalse hnot =>
        have hsame : s.1.interrupt s.2 = ⟨s.1, s.2, 0⟩ := if_neg hnot
        rw [react, Request.run, hsame]
        rfl

theorem accepts_of_event {s : Cpu × σ} {stimulus : Stimulus} (h : event s stimulus = .accept) :
    s.1.accepts := by
  unfold event at h
  split at h
  case h_1 =>
    have hstep := s.1.isStep_stepEvent s.2
    rw [h] at hstep
    cases hstep
  case h_2 =>
    split at h
    case isTrue haccepts => exact haccepts
    case isFalse => cases h
  case h_3 => cases h
  case h_4 => cases h

end Cpu

end Bus
end Zx81.Z80
