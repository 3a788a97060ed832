import Zx81.Proofs.RegisterFrame

namespace Zx81.Z80

namespace Registers

/-- The control registers, with the others as after a reset. -/
def control (r : Registers) : Registers :=
  { i := r.i, refreshTop := r.refreshTop, iff1 := r.iff1, iff2 := r.iff2, im := r.im,
    halted := r.halted }

/-- The control registers and the refresh counter. -/
def system (r : Registers) : Registers := { r.control with refresh := r.refresh }

section System

variable (r : Registers)

@[simp] theorem system_withFlags (f : Flags) : (r.withFlags f).system = r.system := rfl

@[simp] theorem system_withA (v : UInt8) : (r.withA v).system = r.system := rfl

@[simp] theorem system_withIndex (x : IndexReg) (p : Pair) :
    (r.withIndex x p).system = r.system := by
  cases x <;> rfl

@[simp] theorem system_set8 (reg : Reg8) (v : UInt8) : (r.set8 reg v).system = r.system := by
  cases reg with
  | indexHigh x => exact r.system_withIndex x _
  | indexLow x => exact r.system_withIndex x _
  | _ => rfl

@[simp] theorem system_set16 (reg : Reg16) (w : UInt16) : (r.set16 reg w).system = r.system := by
  cases reg with
  | index x => exact r.system_withIndex x _
  | _ => rfl

end System
end Registers

open Registers (control system)

/-- An instruction of the extended page that changes a control register. -/
def Extended.controls : Extended → Bool
  | returnInterrupt | interruptMode _ | storeI | storeR => true
  | _ => false

/-- An instruction that changes a control register; those of the extended page can. -/
def Instruction.controls : Instruction → Bool
  | halt | enableInterrupts | disableInterrupts | extendedPage => true
  | _ => false

namespace Keeps

variable {σ α β γ δ : Type}

theorem pure {view : Registers → γ} (a : α) : Keeps view (Pure.pure a : Exec σ α) := fun _ => rfl

/-- What is read off a view is kept with it. -/
theorem map {view : Registers → γ} {p : Exec σ α} (h : Keeps view p) (f : γ → δ) :
    Keeps (fun r => f (view r)) p := fun s => congrArg f (h s)

theorem toControl {p : Exec σ α} (h : Keeps system p) : Keeps control p :=
  h.map fun r => { r with refresh := 0 }

theorem ite {view : Registers → γ} {c : Prop} [Decidable c] {p q : Exec σ α} (hp : Keeps view p)
    (hq : Keeps view q) : Keeps view (if c then p else q) := by
  split
  · exact hp
  · exact hq

theorem updateAccumulator (f : UInt8 → Flags → Result) :
    Keeps system (Z80.updateAccumulator f : Exec σ Unit) := fun _ => rfl

theorem copyTo (opcode value : UInt8) :
    Keeps system (BitPage.copyTo opcode value : Exec σ Unit) := by
  unfold BitPage.copyTo
  split
  · exact .update fun regs => regs.system_set8 _ value
  · exact .pure ()

variable [Bus σ]

theorem readPort {view : Registers → γ} (port : UInt16) :
    Keeps view (Z80.readPort port : Exec σ UInt8) := fun _ => rfl

theorem writePort {view : Registers → γ} (port : UInt16) (v : UInt8) :
    Keeps view (Z80.writePort port v : Exec σ Unit) := fun _ => rfl

theorem fetchOpcode : Keeps control (Z80.fetchOpcode : Exec σ UInt8) := fun _ => rfl

theorem fetchByte : Keeps system (Z80.fetchByte : Exec σ UInt8) := fun _ => rfl

theorem fetchWord : Keeps system (Z80.fetchWord : Exec σ UInt16) := fun _ => rfl

theorem writeWord (address w : UInt16) :
    Keeps system (Z80.writeWord address w : Exec σ Unit) := fun _ => rfl

theorem pop : Keeps system (Z80.pop : Exec σ UInt16) := fun _ => rfl

theorem addressOf (m : MemoryOperand) : Keeps system (Z80.addressOf m : Exec σ UInt16) := by
  cases m with
  | hl => exact .inspect _
  | displaced x =>
    exact .bind (.inspect _) fun _ => .bind .fetchByte fun _ => .bind (.internal _ 5) fun _ =>
      .inspect _

theorem readOperand (o : Operand) : Keeps system (Z80.readOperand o : Exec σ UInt8) := by
  cases o with
  | reg r => exact .inspect _
  | mem m => exact .bind (.addressOf m) fun _ => .readByte _

theorem writeOperand (o : Operand) (v : UInt8) :
    Keeps system (Z80.writeOperand o v : Exec σ Unit) := by
  cases o with
  | reg r => exact .update fun regs => regs.system_set8 r v
  | mem m => exact .bind (.addressOf m) fun _ => .writeByte _ _

theorem modifyOperand (o : Operand) (f : UInt8 → Flags → Result) :
    Keeps system (Z80.modifyOperand o f : Exec σ Unit) := by
  cases o with
  | reg r => exact .update fun regs => regs.system_set8 r _
  | mem m =>
    exact .bind (.addressOf m) fun _ => .bind (.readByte _) fun _ => .bind (.internal _ 1) fun _ =>
      .bind (.inspect _) fun _ => .bind (.writeByte _ _) fun _ => .update fun _ => rfl

theorem updateWord (r : Reg16) (f : UInt16 → Registers → WordResult) :
    Keeps system (Z80.updateWord r f : Exec σ Unit) :=
  .bind (.internalRefresh 7) fun _ => .update fun regs => regs.system_set16 r _

theorem jumpBy (operandPc : UInt16) (d : UInt8) :
    Keeps system (Z80.jumpBy operandPc d : Exec σ Unit) :=
  .bind (.internal _ 5) fun _ => .update fun _ => rfl

theorem stepWord (r : Reg16) (f : UInt16 → UInt16) :
    Keeps system (Z80.stepWord r f : Exec σ Unit) :=
  .bind (.internalRefresh 2) fun _ => .update fun regs => regs.system_set16 r _

theorem immediatePort : Keeps system (Z80.immediatePort : Exec σ UInt16) :=
  .bind .fetchByte fun _ => .inspect _

theorem loadImmediate (o : Operand) : Keeps system (Z80.loadImmediate o : Exec σ Unit) := by
  rcases o with r | m | x
  · exact .bind .fetchByte fun v => .update fun regs => regs.system_set8 r v
  · exact .bind .fetchByte fun _ => .bind (.inspect _) fun _ => .writeByte _ _
  · exact .bind .fetchByte fun _ => .bind (.inspect _) fun _ => .bind .fetchByte fun _ =>
      .bind (.internal _ 2) fun _ => .bind (.inspect _) fun _ => .writeByte _ _

theorem exchangeStack (r : Reg16) : Keeps system (Z80.exchangeStack r : Exec σ Unit) :=
  .bind (.inspect _) fun _ => .bind (.inspect _) fun _ => .bind (.readWord _) fun w =>
    .bind (.internal _ 1) fun _ => .bind (.writeByte _ _) fun _ => .bind (.writeByte _ _) fun _ =>
    .bind (.internal _ 2) fun _ => .update fun regs => regs.system_set16 r w

theorem callTo (address : UInt16) : Keeps system (Z80.callTo address : Exec σ Unit) :=
  .bind (.inspect _) fun _ => .bind (.internal _ 1) fun _ => .bind (.push (fun _ _ => rfl) _)
    fun _ => .jumpTo (fun _ _ => rfl) _

theorem block (op : BlockOp) (dir : Direction) (repeated : Bool) :
    Keeps system (Block.perform op dir repeated : Exec σ Unit) := by
  have again {c : Prop} [Decidable c] (address : UInt16) :
      Keeps system (if c then (Block.again address : Exec σ Unit) else Pure.pure ()) :=
    .ite (.bind (.internal _ 5) fun _ => .update fun _ => rfl) (.pure ())
  cases op with
  | transfer =>
    exact .bind (.inspect _) fun _ => .bind (.inspect _) fun _ => .bind (.readByte _) fun _ =>
      .bind (.writeByte _ _) fun _ => .bind (.internal _ 2) fun _ => .bind (.inspect _) fun _ =>
      .bind (.update fun _ => rfl) fun _ => again _
  | compare =>
    exact .bind (.inspect _) fun _ => .bind (.readByte _) fun _ => .bind (.internal _ 5) fun _ =>
      .bind (.inspect _) fun _ => .bind (.inspect _) fun _ => .bind (.update fun _ => rfl)
      fun _ => again _
  | input =>
    exact .bind (.internalRefresh 1) fun _ => .bind (.inspect _) fun _ => .bind (.inspect _)
      fun _ => .bind (.readPort _) fun _ => .bind (.writeByte _ _) fun _ => .bind (.inspect _)
      fun _ => .bind (.update fun _ => rfl) fun _ => again _
  | output =>
    exact .bind (.internalRefresh 1) fun _ => .bind (.inspect _) fun _ => .bind (.readByte _)
      fun _ => .bind (.inspect _) fun _ => .bind (.update fun _ => rfl) fun _ =>
      .bind (.inspect _) fun _ => .bind (.writePort _ _) fun _ => .bind (.update fun _ => rfl)
      fun _ => again _

theorem onMemory (op : BitOp) (address : UInt16) (copied : UInt8 → UInt8) :
    Keeps system (BitPage.onMemory op address copied : Exec σ UInt8) :=
  .bind (.readByte _) fun _ => .bind (.internal _ 1) fun _ => .bind (.inspect _) fun _ =>
    .bind (.update fun _ => rfl) fun _ =>
    .ite (.bind (.writeByte _ _) fun _ => .pure _) (.pure _)

theorem onOperand (op : BitOp) (o : Operand) :
    Keeps system (BitPage.onOperand op o : Exec σ Unit) := by
  cases o with
  | mem m => exact .bind (.addressOf m) fun _ => .bind (.onMemory op _ _) fun _ => .pure _
  | reg r =>
    apply Keeps.update
    intro regs
    split
    · exact Registers.system_set8 _ r _
    · rfl

theorem indexedBitPage (x : IndexReg) :
    Keeps system (BitPage.performIndexed x : Exec σ Unit) :=
  .bind .fetchByte fun _ => .bind (.inspect _) fun _ => .bind (.inspect _) fun _ =>
    .bind (.readByte _) fun _ => .bind (.internal _ 2) fun _ => .bind (.update fun _ => rfl)
    fun _ => .bind (.onMemory _ _ _) fun _ => .ite (.copyTo _ _) (.pure ())

theorem rotateDigits (f : UInt8 → UInt8 → UInt8 × UInt8) :
    Keeps system (Extended.rotateDigits f : Exec σ Unit) :=
  .bind (.inspect _) fun _ => .bind (.readByte _) fun _ => .bind (.internal _ 4) fun _ =>
    .bind (.inspect _) fun _ => .bind (.writeByte _ _) fun _ => .update fun _ => rfl

end Keeps

variable {σ : Type} [Bus σ]

theorem Extended.keeps_system {e : Extended} (h : e.controls = false) :
    Keeps system (e.perform : Exec σ Unit) := by
  unfold Extended.perform
  cases e with
  | input reg =>
    cases reg with
    | none =>
      exact .bind (.inspect _) fun _ => .bind (.readPort _) fun _ =>
        .bind (.update fun _ => rfl) fun _ => .pure ()
    | some reg =>
      exact .bind (.inspect _) fun _ => .bind (.readPort _) fun v =>
        .bind (.update fun _ => rfl) fun _ => .update fun regs => regs.system_set8 reg v
  | output reg => exact .bind (.inspect _) fun _ => .bind (.inspect _) fun _ => .writePort _ _
  | subWord r => exact .updateWord _ _
  | addWord r => exact .updateWord _ _
  | storeWordAt r => exact .bind .fetchWord fun _ => .bind (.inspect _) fun _ => .writeWord _ _
  | loadWordAt r =>
    exact .bind .fetchWord fun _ => .bind (.readWord _) fun w => .update fun regs =>
      regs.system_set16 r w
  | negate => exact .updateAccumulator _
  | loadI => exact .bind (.internalRefresh 1) fun _ => .update fun _ => rfl
  | loadR => exact .bind (.internalRefresh 1) fun _ => .update fun _ => rfl
  | rotateDigitsRight => exact .rotateDigits _
  | rotateDigitsLeft => exact .rotateDigits _
  | block op dir repeated => exact .block op dir repeated
  | nop => exact .pure ()
  | returnInterrupt | interruptMode | storeI | storeR => cases h

/-- Behind CB a second opcode is fetched; no other instruction of the main page fetches one. -/
theorem Instruction.keeps_system {i : Instruction} (h : i.controls = false)
    (hfetch : i ≠ .bitPage) : Keeps system (i.perform : Exec σ Unit) := by
  unfold Instruction.perform
  cases i with
  | nop => exact .pure ()
  | exchangeAf => exact .update fun _ => rfl
  | exchangeMain => exact .update fun _ => rfl
  | exchangeDeHl => exact .update fun _ => rfl
  | exchangeStack r => exact .exchangeStack r
  | load dst src => exact .bind (.readOperand src) fun v => .writeOperand dst v
  | loadImmediate dst => exact .loadImmediate dst
  | loadWord r => exact .bind .fetchWord fun w => .update fun regs => regs.system_set16 r w
  | loadWordAt r =>
    exact .bind .fetchWord fun _ => .bind (.readWord _) fun w => .update fun regs =>
      regs.system_set16 r w
  | storeWordAt r => exact .bind .fetchWord fun _ => .bind (.inspect _) fun _ => .writeWord _ _
  | storeAt r => exact .bind (.inspect _) fun _ => .bind (.inspect _) fun _ => .writeByte _ _
  | loadFrom r =>
    exact .bind (.inspect _) fun _ => .bind (.readByte _) fun _ => .update fun _ => rfl
  | storeAbsolute => exact .bind .fetchWord fun _ => .bind (.inspect _) fun _ => .writeByte _ _
  | loadAbsolute =>
    exact .bind .fetchWord fun _ => .bind (.readByte _) fun _ => .update fun _ => rfl
  | loadStackPointer r => exact .bind (.internalRefresh 2) fun _ => .update fun _ => rfl
  | push r =>
    exact .bind (.internalRefresh 1) fun _ => .bind (.inspect _) fun _ => .push (fun _ _ => rfl) _
  | pop r => exact .bind .pop fun w => .update fun regs => regs.system_set16 r w
  | inc o => exact .modifyOperand o _
  | dec o => exact .modifyOperand o _
  | incWord r => exact .stepWord r _
  | decWord r => exact .stepWord r _
  | addWord dst src => exact .updateWord dst _
  | alu op src => exact .bind (.readOperand src) fun _ => .updateAccumulator _
  | aluImmediate op => exact .bind .fetchByte fun _ => .updateAccumulator _
  | rotate s => exact .updateAccumulator _
  | decimalAdjust => exact .updateAccumulator _
  | complement => exact .updateAccumulator _
  | setCarry => exact .updateAccumulator _
  | flipCarry => exact .updateAccumulator _
  | jumpRelative c =>
    exact .bind (.inspect _) fun _ => .bind .fetchByte fun _ => .bind (.inspect _) fun _ =>
      .ite (.jumpBy _ _) (.pure ())
  | decrementJump =>
    exact .bind (.internalRefresh 1) fun _ => .bind (.inspect _) fun _ => .bind .fetchByte
      fun _ => .bind (.inspect _) fun _ => .bind (.update fun _ => rfl) fun _ =>
      .ite (.jumpBy _ _) (.pure ())
  | jump c =>
    exact .bind .fetchWord fun _ => .bind (.inspect _) fun _ =>
      .ite (.jumpTo (fun _ _ => rfl) _) (.pure ())
  | jumpTo r => exact .update fun _ => rfl
  | call c =>
    exact .bind .fetchWord fun _ => .bind (.inspect _) fun _ => .ite (.callTo _) (.pure ())
  | ret c =>
    cases c with
    | none => exact .bind .pop fun _ => .jumpTo (fun _ _ => rfl) _
    | some c =>
      exact .bind (.internalRefresh 1) fun _ => .bind (.inspect _) fun _ =>
        .ite (.bind .pop fun _ => .jumpTo (fun _ _ => rfl) _) (.pure ())
  | restart row =>
    exact .bind (.internalRefresh 1) fun _ => .bind (.inspect _) fun _ =>
      .bind (.push (fun _ _ => rfl) _) fun _ => .jumpTo (fun _ _ => rfl) _
  | input => exact .bind .immediatePort fun _ => .bind (.readPort _) fun _ => .update fun _ => rfl
  | output => exact .bind .immediatePort fun _ => .bind (.inspect _) fun _ => .writePort _ _
  | bitPage => exact absurd rfl hfetch
  | indexedBitPage x => exact .indexedBitPage x
  | indexPage x => exact .pure ()
  | halt | enableInterrupts | disableInterrupts | extendedPage => cases h

theorem Instruction.keeps_control {i : Instruction} (h : i.controls = false) :
    Keeps control (i.perform : Exec σ Unit) := by
  by_cases hfetch : i = .bitPage
  · subst hfetch
    exact .bind .fetchOpcode fun _ => (Keeps.onOperand _ _).toControl
  · exact (keeps_system h hfetch).toControl

theorem Extended.keeps_halted (e : Extended) :
    Keeps Registers.halted (e.perform : Exec σ Unit) := by
  cases h : e.controls with
  | false => exact (Extended.keeps_system h).map Registers.halted
  | true =>
    unfold Extended.perform
    cases e with
    | returnInterrupt =>
      exact .bind (.update fun _ => rfl) fun _ => .bind (fun _ => rfl) fun _ =>
        .jumpTo (fun _ _ => rfl) _
    | interruptMode im => exact .update fun _ => rfl
    | storeI => exact .bind (.internalRefresh 1) fun _ => .update fun _ => rfl
    | storeR => exact .bind (.internalRefresh 1) fun _ => .update fun _ => rfl
    | _ => cases h

theorem Instruction.keeps_halted {i : Instruction} (h : i ≠ .halt) :
    Keeps Registers.halted (i.perform : Exec σ Unit) := by
  cases hcontrols : i.controls with
  | false => exact (Instruction.keeps_control hcontrols).map Registers.halted
  | true =>
    unfold Instruction.perform
    cases i with
    | halt => exact absurd rfl h
    | enableInterrupts => exact .bind (.update fun _ => rfl) fun _ _ => rfl
    | disableInterrupts => exact .update fun _ => rfl
    | extendedPage => exact .bind (fun _ => rfl) fun op => (Extended.decode op).keeps_halted
    | _ => cases hcontrols

/-- No index register takes part in the halt instruction. -/
theorem Instruction.indexed_ne_halt (x : IndexReg) (i : Instruction) :
    i.indexed x ≠ some .halt := by
  intro h
  cases i with
  | load dst src =>
    simp only [indexed, indexedLoad] at h
    split at h
    · cases h
    · cases h
    · split at h <;> cases h
  | _ =>
    simp only [indexed, Option.map_eq_some_iff, reduceCtorEq, and_false, exists_false,
      Option.some.injEq] at h

theorem Instruction.keeps_halted_execute {i : Instruction} (h : i ≠ .halt) :
    Keeps Registers.halted (i.execute : Exec σ Unit) := by
  unfold Instruction.execute
  split
  case h_1 x =>
    refine .bind (fun _ => rfl) fun op => ?_
    split
    case h_1 i hi =>
      apply Instruction.keeps_halted
      rintro rfl
      exact Instruction.indexed_ne_halt x _ hi
    case h_2 => exact .update fun _ => rfl
  case h_2 => exact Instruction.keeps_halted h

end Zx81.Z80
