import Zx81.Z80.Cpu

namespace Zx81.Z80

variable {σ α β γ : Type}

/-- A program leaves a view of the registers as it is. -/
def Keeps (view : Registers → γ) (p : Exec σ α) : Prop :=
  ∀ s, view (p s).2.regs = view s.regs

namespace Keeps

variable {view : Registers → γ}

theorem bind {p : Exec σ α} {f : α → Exec σ β} (hp : Keeps view p)
    (hf : ∀ a, Keeps view (f a)) : Keeps view (p >>= f) :=
  fun s => (hf _ _).trans (hp s)

theorem inspect (f : Registers → α) : Keeps view (Z80.inspect f : Exec σ α) := fun _ => rfl

theorem update {f : Registers → Registers} (h : ∀ r, view (f r) = view r) :
    Keeps view (Z80.update f : Exec σ Unit) := fun s => h s.regs

theorem jumpTo (h : ∀ (r : Registers) pc, view { r with pc } = view r) (address : UInt16) :
    Keeps view (Z80.jumpTo address : Exec σ Unit) := .update fun r => h r address

/-- What a program that begins with a change of the registers leaves of a view. -/
theorem after_update (view : Registers → γ) {f : Registers → Registers} {p : Unit → Exec σ α}
    (hp : ∀ u, Keeps view (p u)) (s : Core σ) :
    view ((Z80.update f >>= p) s).2.regs = view (f s.regs) :=
  hp () _

variable [Bus σ]

theorem charge (address : UInt16) (t : Nat) : Keeps view (Z80.charge address t : Exec σ Unit) :=
  fun _ => rfl

theorem internal (address : UInt16) (n : Nat) :
    Keeps view (Z80.internal address n : Exec σ Unit) := by
  induction n with
  | zero => exact fun _ => rfl
  | succ n ih => exact .bind (.charge address 1) fun _ => ih

theorem internalRefresh (n : Nat) : Keeps view (Z80.internalRefresh n : Exec σ Unit) :=
  .bind (.inspect _) fun _ => .internal _ n

theorem readByte (address : UInt16) : Keeps view (Z80.readByte address : Exec σ UInt8) :=
  fun _ => rfl

theorem writeByte (address : UInt16) (v : UInt8) :
    Keeps view (Z80.writeByte address v : Exec σ Unit) := fun _ => rfl

theorem readWord (address : UInt16) : Keeps view (Z80.readWord address : Exec σ UInt16) :=
  .bind (.readByte _) fun _ => .bind (.readByte _) fun _ _ => rfl

theorem push (h : ∀ (r : Registers) sp, view { r with sp } = view r) (w : UInt16) :
    Keeps view (Z80.push w : Exec σ Unit) :=
  .bind (.update fun r => h r _) fun _ => .bind (.inspect _) fun _ => .bind (.writeByte _ _)
    fun _ => .bind (.update fun r => h r _) fun _ => .bind (.inspect _) fun _ => .writeByte _ _

end Keeps

variable [Bus σ]

/-- An accepted interrupt changes PC and SP, and else no more than at its beginning. -/
theorem view_acceptInterrupt (view : Registers → γ)
    (hsp : ∀ (r : Registers) sp, view { r with sp } = view r)
    (hpc : ∀ (r : Registers) pc, view { r with pc } = view r) (s : Core σ) :
    view (Cpu.acceptInterrupt s).2.regs =
      view { Cpu.wake s.regs with iff1 := false, iff2 := false }.advanceRefresh := by
  have jump (im : UInt8) : Keeps view (do
      if im = 2 then
        let vector ← inspect fun r => (Pair.mk r.i 0xFF).word
        Z80.jumpTo (← readWord vector)
      else
        Z80.jumpTo 0x0038 : Exec σ Unit) := by
    split
    · exact .bind (.inspect _) fun _ => .bind (.readWord _) fun _ => .jumpTo hpc _
    · exact .jumpTo hpc _
  unfold Cpu.acceptInterrupt
  refine Keeps.after_update view (fun _ => ?_) s
  exact .bind (.internalRefresh 7) fun _ => .bind (.inspect _) fun _ =>
    .bind (.push hsp _) fun _ => .bind (.inspect _) jump

/-- An accepted interrupt disables interrupts. -/
theorem iff1_acceptInterrupt (s : Core σ) : (Cpu.acceptInterrupt s).2.regs.iff1 = false :=
  view_acceptInterrupt Registers.iff1 (fun _ _ => rfl) (fun _ _ => rfl) s

/-- Both kinds of interrupt begin with waking the processor. -/
theorem wake_eq (r : Registers) :
    Cpu.wake r = { r with halted := false, pc := if r.halted then r.pc + 1 else r.pc } := by
  unfold Cpu.wake
  split
  case isTrue => rfl
  case isFalse hawake =>
    have hawake' : r.halted = false := by simpa using hawake
    rw [← hawake']

theorem halted_wake (r : Registers) : (Cpu.wake r).halted = false := by
  rw [wake_eq]

/-- An accepted interrupt ends a halt. -/
theorem halted_acceptInterrupt (s : Core σ) : (Cpu.acceptInterrupt s).2.regs.halted = false :=
  (view_acceptInterrupt Registers.halted (fun _ _ => rfl) (fun _ _ => rfl) s).trans
    (halted_wake s.regs)

end Zx81.Z80
