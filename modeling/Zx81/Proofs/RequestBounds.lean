import Zx81.Proofs.Halt
import Zx81.Proofs.RegisterCodes
import Zx81.Proofs.RequestTrace

namespace Zx81.Z80

variable {σ : Type} [Bus σ]

open Shape (internals)

theorem snd_bind {τ α β : Type} (p : Exec τ α) (f : α → Exec τ β) (s : Core τ) :
    ((p >>= f) s).2 = (f (p s).1 (p s).2).2 := rfl

namespace Cpu

theorem step_bounds (cpu : Cpu) (bus : σ) :
    let trace := Request.step.trace cpu bus
    (1 ≤ trace.fetches.length ∧ trace.fetches.length ≤ 2) ∧ trace.writes ≤ 2 ∧
      4 ≤ trace.requested ∧ trace.requested ≤ 23 := by
  intro trace
  obtain ⟨cs, hcs, -, hevents⟩ := cpu.step_recorded bus
  have hfetches : trace.fetches.length = (cs.map BusCycle.kind).count .fetch :=
    (congrArg (fun events => (events.filterMap BusEvent.fetch?).length) hevents).trans
      (BusCycle.length_fetches_recordAll cs (0, bus))
  have hwrites : trace.writes = (cs.map BusCycle.kind).count .write :=
    (congrArg (List.countP BusEvent.isWrite) hevents).trans
      (BusCycle.countP_isWrite_recordAll cs (0, bus))
  have hrequested : trace.requested = Shape.tstates (cs.map BusCycle.kind) :=
    (congrArg (fun events => (events.map BusEvent.requested).sum) hevents).trans
      (BusCycle.requested_recordAll cs (0, bus))
  obtain ⟨htime, hfetch, hwrite, -⟩ := stepShapes_bounds _ hcs
  rw [hfetches, hwrites, hrequested]
  exact ⟨hfetch, hwrite, htime⟩

/-- What accepting a maskable interrupt does before the jump to its routine. -/
def leaveProgram : Exec σ Unit := do
  update fun r => { wake r with iff1 := false, iff2 := false } |>.advanceRefresh
  internalRefresh 7
  push (← inspect (·.pc))

theorem acceptInterrupt_eq : acceptInterrupt (σ := σ) = (do leaveProgram; toRoutine) := rfl

theorem built_leaveProgram :
    Built false (fun _ _ => leaveProgram) [internals 7 ++ [.write, .write]] :=
  .of_eq (.bind (.update _) fun _ => .bind (.internalRefresh 7) fun _ => .bind (.inspect _)
    fun _ => .push _) rfl

theorem im_leaveProgram (s : Core σ) : (leaveProgram s).2.regs.im = s.regs.im := by
  unfold leaveProgram
  rw [Keeps.after_update Registers.im (fun _ => .bind (.internalRefresh 7) fun _ =>
    .bind (.inspect _) fun _ => .push (fun _ _ => rfl) _) s, wake_eq]
  rfl

theorem requested_toRoutine (s : Core (Traced σ)) :
    (toRoutine s).2.bus.requested = s.bus.requested + if s.regs.im = 2 then 6 else 0 := by
  by_cases him : s.regs.im = 2
  · let vector := (Pair.mk s.regs.i 0xFF).word
    have hbuilt : Built false (fun _ _ => do jumpTo (← readWord vector)) [[.read, .read]] :=
      .of_eq (.bind (.readWord _) fun _ => .update _) rfl
    have hrun : (toRoutine s).2 =
        ((do jumpTo (← readWord vector) : Exec (Traced σ) Unit) s).2 := by
      simp only [toRoutine, inspect, bind, StateT.bind, if_pos him]
      rfl
    rw [hrun, if_pos him]
    exact hbuilt.requested_eq (by decide) s
  · have hrun : (toRoutine s).2 = (jumpTo 0x0038 s).2 := by
      simp only [toRoutine, inspect, bind, StateT.bind, if_neg him]
    rw [hrun, if_neg him]
    rfl

theorem requested_acceptInterrupt (s : Core (Traced σ)) :
    (acceptInterrupt s).2.bus.requested = s.bus.requested + if s.regs.im = 2 then 19 else 13 := by
  have hrun : (acceptInterrupt s).2 = (toRoutine (leaveProgram s).2).2 := by
    rw [acceptInterrupt_eq, snd_bind]
  have hleave : (leaveProgram s).2.bus.requested = s.bus.requested + 13 :=
    built_leaveProgram.requested_eq (by decide) s
  rw [hrun, requested_toRoutine, hleave, im_leaveProgram]
  split <;> rfl

end Cpu

namespace Request

theorem requested_interrupt (cpu : Cpu) (bus : σ) :
    (interrupt.trace cpu bus).requested =
      if cpu.accepts then if cpu.regs.im = 2 then 19 else 13 else 0 := by
  simp only [trace, run, Cpu.interrupt]
  cases cpu.accepts with
  | false => rfl
  | true =>
    have hasked := Cpu.requested_acceptInterrupt ⟨cpu.regs, 0, cpu.holdOff, Traced.mk bus #[]⟩
    rw [if_pos rfl, if_pos rfl, Cpu.run_eq_settle]
    have hfresh : (Traced.mk bus #[]).requested = 0 := rfl
    rw [hfresh, Nat.zero_add] at hasked
    exact hasked

theorem requested_nmi (haltWait : Nat) (cpu : Cpu) (bus : σ) :
    ((nmi haltWait).trace cpu bus).requested = 11 := by
  rw [trace, nmi_run]
  exact Built.acceptNmi.requested_eq (t := 11) (by decide)
    ⟨cpu.regs, (nmi haltWait).start cpu, cpu.holdOff, Traced.mk bus #[]⟩

end Request

/-- Every step is defined and bounded, on any bus and from any state. On no page does it reach for
a byte register by code 6, which names none. It fetches one or two opcodes, writes two bytes of
memory at most, and asks for 4 to 23 T-states. A maskable interrupt that is accepted asks for 19 in
mode 2 and for 13 in the other modes, a non-maskable one for 11 on top of the wait that leaves a
halt; and what is asked for is what each takes, without its wait states. -/
theorem requests_bounded (cpu : Cpu) (bus : σ) :
    let step := Request.step.trace cpu bus
    cpu.stepByCode bus = some (cpu.step bus) ∧
      ((1 ≤ step.fetches.length ∧ step.fetches.length ≤ 2) ∧ step.writes ≤ 2 ∧
        4 ≤ step.requested ∧ step.requested ≤ 23) ∧
      (Request.interrupt.trace cpu bus).requested =
        (if cpu.accepts then if cpu.regs.im = 2 then 19 else 13 else 0) ∧
      (∀ haltWait, ((Request.nmi haltWait).trace cpu bus).requested = 11) ∧
      ∀ q : Request, (q.run cpu bus).tstates =
        q.start cpu + (q.trace cpu bus).requested + (q.trace cpu bus).waited :=
  ⟨cpu.stepByCode_eq bus, cpu.step_bounds bus, Request.requested_interrupt cpu bus,
    fun haltWait => Request.requested_nmi haltWait cpu bus, fun q => q.tstates_eq cpu bus⟩

end Zx81.Z80
