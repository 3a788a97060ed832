import Zx81.Proofs.MachineCycle
import Zx81.Z80.Cpu

namespace Zx81.Z80

/-- T-states without an access. -/
def Shape.internals (n : Nat) : Shape := List.replicate n .internal

def opcodes : List UInt8 := (List.range 256).map UInt8.ofNat

theorem mem_opcodes (op : UInt8) : op ∈ opcodes :=
  List.mem_map.mpr ⟨op.toNat, List.mem_range.mpr op.toNat_lt, UInt8.ofNat_toNat⟩

/-- What is decided for each opcode in turn holds of every opcode. -/
theorem forall_opcode {P : UInt8 → Prop} [DecidablePred P] (h : opcodes.all fun op => P op)
    (op : UInt8) : P op :=
  of_decide_eq_true (List.all_eq_true.1 h op (mem_opcodes op))

open Shape (internals)

/-- The cycles that give the address of a byte in memory. -/
def MemoryOperand.shape : MemoryOperand → Shape
  | .hl => []
  | .displaced _ => .read :: internals 5

/-- The cycles that reach an operand and then, for a byte in memory, the ones of its access. -/
def Operand.shape (o : Operand) (access : Shape) : Shape :=
  match o with
  | .reg _ => []
  | .mem m => m.shape ++ access

/-- The cycles of an instruction that stores an immediate byte. -/
def Operand.immediateShape : Operand → Shape
  | .reg _ => [.read]
  | .mem .hl => [.read, .write]
  | .mem (.displaced _) => [.read, .read] ++ internals 2 ++ [.write]

/-- The cycles of a block instruction: those of one element, with or without those to go back. -/
def BlockOp.shapes (op : BlockOp) : List Shape :=
  let element : Shape :=
    match op with
    | .transfer => [.read, .write] ++ internals 2
    | .compare => .read :: internals 5
    | .input => [.internal, .input, .write]
    | .output => [.internal, .read, .output]
  [element ++ internals 5, element]

/-- The cycles of an instruction of the extended page. -/
def Extended.shapes : Extended → List Shape
  | .input _ => [[.input]]
  | .output _ => [[.output]]
  | .subWord _ => [internals 7]
  | .addWord _ => [internals 7]
  | .storeWordAt _ => [[.read, .read, .write, .write]]
  | .loadWordAt _ => [[.read, .read, .read, .read]]
  | .returnInterrupt => [[.read, .read]]
  | .storeI => [[.internal]]
  | .storeR => [[.internal]]
  | .loadI => [[.internal]]
  | .loadR => [[.internal]]
  | .rotateDigitsRight => [[.read] ++ internals 4 ++ [.write]]
  | .rotateDigitsLeft => [[.read] ++ internals 4 ++ [.write]]
  | .block op _ _ => op.shapes
  | .negate => [[]]
  | .interruptMode _ => [[]]
  | .nop => [[]]

/-- The cycles of an instruction after its opcode has been fetched, prefixes DD and FD apart. -/
def Instruction.shapes : Instruction → List Shape
  | .exchangeStack _ => [[.read, .read, .internal, .write, .write] ++ internals 2]
  | .load dst src => [src.shape [.read] ++ dst.shape [.write]]
  | .loadImmediate dst => [dst.immediateShape]
  | .loadWord _ => [[.read, .read]]
  | .loadWordAt _ => [[.read, .read, .read, .read]]
  | .storeWordAt _ => [[.read, .read, .write, .write]]
  | .storeAt _ => [[.write]]
  | .loadFrom _ => [[.read]]
  | .storeAbsolute => [[.read, .read, .write]]
  | .loadAbsolute => [[.read, .read, .read]]
  | .loadStackPointer _ => [internals 2]
  | .push _ => [[.internal, .write, .write]]
  | .pop _ => [[.read, .read]]
  | .inc o => [o.shape [.read, .internal, .write]]
  | .dec o => [o.shape [.read, .internal, .write]]
  | .incWord _ => [internals 2]
  | .decWord _ => [internals 2]
  | .addWord _ _ => [internals 7]
  | .alu _ src => [src.shape [.read]]
  | .aluImmediate _ => [[.read]]
  | .jumpRelative _ => [.read :: internals 5, [.read]]
  | .decrementJump => [[.internal, .read] ++ internals 5, [.internal, .read]]
  | .jump _ => [[.read, .read]]
  | .call _ => [[.read, .read, .internal, .write, .write], [.read, .read]]
  | .ret none => [[.read, .read]]
  | .ret (some _) => [[.internal, .read, .read], [.internal]]
  | .restart _ => [[.internal, .write, .write]]
  | .input => [[.read, .input]]
  | .output => [[.read, .output]]
  | .bitPage => [[.fetch], [.fetch, .read, .internal, .write], [.fetch, .read, .internal]]
  | .indexedBitPage _ =>
    [[.read, .read] ++ internals 2 ++ [.read, .internal, .write],
      [.read, .read] ++ internals 2 ++ [.read, .internal]]
  | .extendedPage => opcodes.flatMap fun op => (Extended.decode op).shapes.map (.fetch :: ·)
  | _ => [[]]

/-- The cycles after a prefix DD or FD and the opcode behind it. -/
def Instruction.indexedShapes (x : IndexReg) (op : UInt8) : List Shape :=
  match (decode op).indexed x with
  | some i => i.shapes
  | none => [[]]

/-- The cycles of an instruction after its opcode has been fetched. -/
def Instruction.allShapes : Instruction → List Shape
  | .indexPage x => opcodes.flatMap fun op => (indexedShapes x op).map (.fetch :: ·)
  | i => i.shapes

/-- The cycles of a step. -/
def stepShapes : List Shape :=
  opcodes.flatMap fun op => (decode op).allShapes.map (.fetch :: ·)

/-- The cycles by which a maskable interrupt is accepted. -/
def interruptShapes : List Shape :=
  [internals 7 ++ [.write, .write, .read, .read], internals 7 ++ [.write, .write]]

/-- The cycles by which a non-maskable interrupt is answered. -/
def nmiShape : Shape := internals 5 ++ [.write, .write]

theorem Operand.ofCode_ne_displaced (n : Fin 8) (x : IndexReg) :
    Operand.ofCode n ≠ .mem (.displaced x) := by
  cases x <;> revert n <;> decide

namespace Built

variable {holds : Bool}

/-- The shapes of a program in another spelling. -/
theorem of_eq {α : Type} {p : Program α} {S T : List Shape} (hp : Built holds p S) (h : S = T) :
    Built holds p T := h ▸ hp

/-- A program that goes on in one of two ways. -/
theorem ite {α : Type} {c : Prop} [Decidable c] {p q : Program α} {S T : List Shape}
    (hp : Built holds p S) (hq : Built holds q T) :
    Built holds (fun σ _ => if c then p σ else q σ) (S ++ T) := by
  split
  · exact .mono hp (List.subset_append_left S T)
  · exact .mono hq (List.subset_append_right S T)

theorem fetchOpcode : Built holds (fun _ _ => Z80.fetchOpcode) [[.fetch]] :=
  .of_eq (.bind (.inspect _) fun _ => .bind (.fetch _ _) fun _ => .bind (.update _) fun _ =>
    .pure _) rfl

theorem fetchByte : Built holds (fun _ _ => Z80.fetchByte) [[.read]] :=
  .of_eq (.bind (.inspect _) fun _ => .bind (.update _) fun _ => .read _) rfl

theorem readWord (address : UInt16) :
    Built holds (fun _ _ => Z80.readWord address) [[.read, .read]] :=
  .of_eq (.bind (.read _) fun _ => .bind (.read _) fun _ => .pure _) rfl

theorem writeWord (address w : UInt16) :
    Built holds (fun _ _ => Z80.writeWord address w) [[.write, .write]] :=
  .of_eq (.bind (.write _ _) fun _ => .write _ _) rfl

theorem fetchWord : Built holds (fun _ _ => Z80.fetchWord) [[.read, .read]] :=
  .of_eq (.bind .fetchByte fun _ => .bind .fetchByte fun _ => .pure _) rfl

theorem push (w : UInt16) : Built holds (fun _ _ => Z80.push w) [[.write, .write]] :=
  .of_eq (.bind (.update _) fun _ => .bind (.inspect _) fun _ => .bind (.write _ _) fun _ =>
    .bind (.update _) fun _ => .bind (.inspect _) fun _ => .write _ _) rfl

theorem pop : Built holds (fun _ _ => Z80.pop) [[.read, .read]] :=
  .of_eq (.bind (.inspect _) fun _ => .bind (.read _) fun _ => .bind (.update _) fun _ =>
    .bind (.inspect _) fun _ => .bind (.read _) fun _ => .bind (.update _) fun _ => .pure _) rfl

theorem internals (address : UInt16) (n : Nat) :
    Built holds (fun _ _ => Z80.internal address n) [Shape.internals n] := by
  induction n with
  | zero => exact .pure ()
  | succ n ih => exact .of_eq (.bind (.internal address) fun _ => ih) rfl

theorem internalRefresh (n : Nat) :
    Built holds (fun _ _ => Z80.internalRefresh n) [Shape.internals n] :=
  .of_eq (.bind (.inspect _) fun _ => .internals _ n) rfl

theorem addressOf (m : MemoryOperand) : Built holds (fun _ _ => Z80.addressOf m) [m.shape] := by
  cases m with
  | hl => exact .inspect fun r => r.hl.word
  | displaced x =>
    exact .of_eq (.bind (.inspect _) fun _ => .bind .fetchByte fun _ =>
      .bind (.internals _ 5) fun _ => .inspect _) rfl

theorem readOperand (o : Operand) :
    Built holds (fun _ _ => Z80.readOperand o) [o.shape [.read]] := by
  cases o with
  | reg r => exact .inspect fun regs => regs.get8 r
  | mem m => exact .of_eq (.bind (.addressOf m) fun _ => .read _) rfl

theorem writeOperand (o : Operand) (v : UInt8) :
    Built holds (fun _ _ => Z80.writeOperand o v) [o.shape [.write]] := by
  cases o with
  | reg r => exact .update fun regs => regs.set8 r v
  | mem m => exact .of_eq (.bind (.addressOf m) fun _ => .write _ _) rfl

theorem modifyOperand (o : Operand) (f : UInt8 → Flags → Result) :
    Built holds (fun _ _ => Z80.modifyOperand o f) [o.shape [.read, .internal, .write]] := by
  cases o with
  | reg r =>
    exact .update fun regs =>
      (regs.set8 r (f (regs.get8 r) regs.flags).value).withFlags (f (regs.get8 r) regs.flags).flags
  | mem m =>
    exact .of_eq (.bind (.addressOf m) fun _ => .bind (.read _) fun _ =>
      .bind (.internals _ 1) fun _ => .bind (.inspect _) fun _ => .bind (.write _ _) fun _ =>
      .update _) rfl

theorem updateWord (r : Reg16) (f : UInt16 → Registers → WordResult) :
    Built holds (fun _ _ => Z80.updateWord r f) [Shape.internals 7] :=
  .of_eq (.bind (.internalRefresh 7) fun _ => .update _) rfl

theorem jumpBy (operandPc : UInt16) (d : UInt8) :
    Built holds (fun _ _ => Z80.jumpBy operandPc d) [Shape.internals 5] :=
  .of_eq (.bind (.internals _ 5) fun _ => .update _) rfl

theorem stepWord (r : Reg16) (f : UInt16 → UInt16) :
    Built holds (fun _ _ => Z80.stepWord r f) [Shape.internals 2] :=
  .of_eq (.bind (.internalRefresh 2) fun _ => .update _) rfl

theorem immediatePort : Built holds (fun _ _ => Z80.immediatePort) [[.read]] :=
  .of_eq (.bind .fetchByte fun _ => .inspect _) rfl

theorem loadImmediate (o : Operand) :
    Built holds (fun _ _ => Z80.loadImmediate o) [o.immediateShape] := by
  rcases o with r | m | x
  · exact .of_eq (.bind .fetchByte fun _ => .update _) rfl
  · exact .of_eq (.bind .fetchByte fun _ => .bind (.inspect _) fun _ => .write _ _) rfl
  · exact .of_eq (.bind .fetchByte fun _ => .bind (.inspect _) fun _ => .bind .fetchByte fun _ =>
      .bind (.internals _ 2) fun _ => .bind (.inspect _) fun _ => .write _ _) rfl

theorem exchangeStack (r : Reg16) :
    Built holds (fun _ _ => Z80.exchangeStack r)
      [[.read, .read, .internal, .write, .write] ++ Shape.internals 2] :=
  .of_eq (.bind (.inspect _) fun _ => .bind (.inspect _) fun _ => .bind (.readWord _) fun _ =>
    .bind (.internals _ 1) fun _ => .bind (.write _ _) fun _ => .bind (.write _ _) fun _ =>
    .bind (.internals _ 2) fun _ => .update _) rfl

theorem callTo (address : UInt16) :
    Built holds (fun _ _ => Z80.callTo address) [[.internal, .write, .write]] :=
  .of_eq (.bind (.inspect _) fun _ => .bind (.internals _ 1) fun _ => .bind (.push _) fun _ =>
    .update _) rfl

/-- A block instruction goes back at the end or it does not. -/
theorem again {c : Prop} [Decidable c] (address : UInt16) :
    Built holds (fun σ [Bus σ] => if c then (Block.again address : Exec σ Unit) else Pure.pure ())
      [Shape.internals 5, []] :=
  .ite (.of_eq (.bind (.internals _ 5) fun _ => .update _) rfl) (.pure ())

theorem block (op : BlockOp) (dir : Direction) (repeated : Bool) :
    Built holds (fun _ _ => Block.perform op dir repeated) op.shapes := by
  cases op with
  | transfer =>
    exact .of_eq (.bind (.inspect _) fun _ => .bind (.inspect _) fun _ => .bind (.read _) fun _ =>
      .bind (.write _ _) fun _ => .bind (.internals _ 2) fun _ => .bind (.inspect _) fun _ =>
      .bind (.update _) fun _ => .again _) rfl
  | compare =>
    exact .of_eq (.bind (.inspect _) fun _ => .bind (.read _) fun _ => .bind (.internals _ 5)
      fun _ => .bind (.inspect _) fun _ => .bind (.inspect _) fun _ => .bind (.update _) fun _ =>
      .again _) rfl
  | input =>
    exact .of_eq (.bind (.internalRefresh 1) fun _ => .bind (.inspect _) fun _ =>
      .bind (.inspect _) fun _ => .bind (.input _) fun _ => .bind (.write _ _) fun _ =>
      .bind (.inspect _) fun _ => .bind (.update _) fun _ => .again _) rfl
  | output =>
    exact .of_eq (.bind (.internalRefresh 1) fun _ => .bind (.inspect _) fun _ =>
      .bind (.read _) fun _ => .bind (.inspect _) fun _ => .bind (.update _) fun _ =>
      .bind (.inspect _) fun _ => .bind (.output _ _) fun _ => .bind (.update _) fun _ =>
      .again _) rfl

theorem updateAccumulator (f : UInt8 → Flags → Result) :
    Built holds (fun _ _ => Z80.updateAccumulator f) [[]] := by
  unfold Z80.updateAccumulator
  exact .update _

theorem loadAccumulator (f : Registers → UInt8) :
    Built holds (fun _ _ => Extended.loadAccumulator f) [[.internal]] :=
  .of_eq (.bind (.internalRefresh 1) fun _ => .update _) rfl

theorem rotateDigits (f : UInt8 → UInt8 → UInt8 × UInt8) :
    Built holds (fun _ _ => Extended.rotateDigits f) [[.read] ++ Shape.internals 4 ++ [.write]] :=
  .of_eq (.bind (.inspect _) fun _ => .bind (.read _) fun _ => .bind (.internals _ 4) fun _ =>
    .bind (.inspect _) fun _ => .bind (.write _ _) fun _ => .update _) rfl

theorem extended (e : Extended) : Built holds (fun _ _ => e.perform) e.shapes := by
  unfold Extended.perform
  cases e with
  | input reg =>
    cases reg with
    | none =>
      exact .of_eq (.bind (.inspect _) fun _ => .bind (.input _) fun _ => .bind (.update _)
        fun _ => .pure _) rfl
    | some r =>
      exact .of_eq (.bind (.inspect _) fun _ => .bind (.input _) fun _ => .bind (.update _)
        fun _ => .update _) rfl
  | output reg =>
    exact .of_eq (.bind (.inspect _) fun _ => .bind (.inspect _) fun _ => .output _ _) rfl
  | subWord r => exact .updateWord _ _
  | addWord r => exact .updateWord _ _
  | storeWordAt r =>
    exact .of_eq (.bind .fetchWord fun _ => .bind (.inspect _) fun _ => .writeWord _ _) rfl
  | loadWordAt r =>
    exact .of_eq (.bind .fetchWord fun _ => .bind (.readWord _) fun _ => .update _) rfl
  | negate => exact .updateAccumulator _
  | returnInterrupt => exact .of_eq (.bind (.update _) fun _ => .bind .pop fun _ => .update _) rfl
  | interruptMode im => exact .update _
  | storeI => exact .of_eq (.bind (.internalRefresh 1) fun _ => .update _) rfl
  | storeR => exact .of_eq (.bind (.internalRefresh 1) fun _ => .update _) rfl
  | loadI => exact .loadAccumulator _
  | loadR => exact .loadAccumulator _
  | rotateDigitsRight => exact .rotateDigits _
  | rotateDigitsLeft => exact .rotateDigits _
  | block op dir repeated => exact .block op dir repeated
  | nop => exact .pure ()

/-- The operation on a byte in memory, which a test does not write back. -/
theorem onMemory (op : BitOp) (address : UInt16) (copied : UInt8 → UInt8) :
    Built holds (fun _ _ => BitPage.onMemory op address copied)
      [[.read, .internal, .write], [.read, .internal]] :=
  .of_eq (.bind (.read _) fun _ => .bind (.internals _ 1) fun _ => .bind (.inspect _) fun _ =>
    .bind (.update _) fun _ => .ite (.bind (.write _ _) fun _ => .pure _) (.pure _)) rfl

theorem onRegister (op : BitOp) (r : Reg8) :
    Built holds (fun _ _ => BitPage.onRegister op r) [[]] := by
  unfold BitPage.onRegister
  exact .update _

theorem onOperand (op : BitOp) (n : Fin 8) :
    Built holds (fun _ _ => BitPage.onOperand op (Operand.ofCode n))
      [[], [.read, .internal, .write], [.read, .internal]] := by
  cases h : Operand.ofCode n with
  | reg r => exact .mono (.onRegister op r) (by simp)
  | mem m =>
    cases m with
    | hl =>
      exact .mono (.bind (.addressOf .hl) fun _ => .bind (.onMemory _ _ _) fun _ => .pure _)
        (by decide)
    | displaced x => exact absurd h (Operand.ofCode_ne_displaced n x)

theorem bitPage : Built holds (fun _ _ => BitPage.perform) Instruction.bitPage.shapes :=
  .of_eq (.bind .fetchOpcode fun _ => .onOperand _ _) rfl

theorem copyTo (opcode value : UInt8) :
    Built holds (fun _ _ => BitPage.copyTo opcode value) [[]] := by
  unfold BitPage.copyTo
  cases Reg8.ofCode? (opcodeColumn opcode) with
  | none => exact .pure ()
  | some r => exact .update _

theorem indexedBitPage (x : IndexReg) :
    Built holds (fun _ _ => BitPage.performIndexed x) (Instruction.indexedBitPage x).shapes :=
  .mono (.bind .fetchByte fun _ => .bind (.inspect _) fun _ => .bind (.inspect _) fun _ =>
    .bind (.read _) fun _ => .bind (.internals _ 2) fun _ => .bind (.update _) fun _ =>
    .bind (.onMemory _ _ _) fun _ => .ite (.copyTo _ _) (.pure ()))
    (show [_, _, _, _] ⊆ [_, _] by simp)

/-- A program that goes on as an opcode tells. -/
theorem bindOpcode {α : Type} {p : Program UInt8} {f : (σ : Type) → [Bus σ] → UInt8 → Exec σ α}
    {shapes : UInt8 → List Shape} (hp : Built holds p [[.fetch]])
    (hf : ∀ op, Built holds (fun σ _ => f σ op) (shapes op)) :
    Built holds (fun σ _ => p σ >>= f σ)
      (opcodes.flatMap fun op => (shapes op).map (.fetch :: ·)) := by
  have hall (op : UInt8) : Built holds (fun σ _ => f σ op) (opcodes.flatMap shapes) :=
    .mono (hf op) fun s hs => List.mem_flatMap.mpr ⟨op, mem_opcodes op, hs⟩
  refine .mono (.bind hp hall) fun s hs => ?_
  simp only [Shape.product, List.mem_flatMap, List.mem_map, List.mem_singleton] at hs ⊢
  obtain ⟨_, rfl, t, ⟨op, hop, ht⟩, rfl⟩ := hs
  exact ⟨op, hop, t, ht, rfl⟩

/-- Only the instruction that enables interrupts holds them off. -/
theorem performIf (i : Instruction) (h : i = .enableInterrupts → holds = true) :
    Built holds (fun _ _ => i.perform) i.shapes := by
  unfold Instruction.perform
  cases i with
  | nop => exact .pure ()
  | halt => exact .update _
  | enableInterrupts => exact .of_eq (.bind (.update _) fun _ => .holdOff (h rfl)) rfl
  | disableInterrupts => exact .update _
  | exchangeAf => exact .update _
  | exchangeMain => exact .update _
  | exchangeDeHl => exact .update _
  | exchangeStack r => exact .exchangeStack r
  | load dst src =>
    exact .of_eq (.bind (.readOperand src) fun _ => .writeOperand dst _) rfl
  | loadImmediate dst => exact .loadImmediate dst
  | loadWord r => exact .of_eq (.bind .fetchWord fun _ => .update _) rfl
  | loadWordAt r =>
    exact .of_eq (.bind .fetchWord fun _ => .bind (.readWord _) fun _ => .update _) rfl
  | storeWordAt r =>
    exact .of_eq (.bind .fetchWord fun _ => .bind (.inspect _) fun _ => .writeWord _ _) rfl
  | storeAt r =>
    exact .of_eq (.bind (.inspect _) fun _ => .bind (.inspect _) fun _ => .write _ _) rfl
  | loadFrom r =>
    exact .of_eq (.bind (.inspect _) fun _ => .bind (.read _) fun _ => .update _) rfl
  | storeAbsolute =>
    exact .of_eq (.bind .fetchWord fun _ => .bind (.inspect _) fun _ => .write _ _) rfl
  | loadAbsolute =>
    exact .of_eq (.bind .fetchWord fun _ => .bind (.read _) fun _ => .update _) rfl
  | loadStackPointer r => exact .of_eq (.bind (.internalRefresh 2) fun _ => .update _) rfl
  | push r =>
    exact .of_eq (.bind (.internalRefresh 1) fun _ => .bind (.inspect _) fun _ => .push _) rfl
  | pop r => exact .of_eq (.bind .pop fun _ => .update _) rfl
  | inc o => exact .modifyOperand o _
  | dec o => exact .modifyOperand o _
  | incWord r => exact .stepWord r _
  | decWord r => exact .stepWord r _
  | addWord dst src => exact .updateWord dst _
  | alu op src =>
    exact .of_eq (.bind (.readOperand src) fun _ => .updateAccumulator _)
      (by simp [Shape.product, Instruction.shapes])
  | aluImmediate op => exact .of_eq (.bind .fetchByte fun _ => .updateAccumulator _) rfl
  | rotate s => exact .updateAccumulator _
  | decimalAdjust => exact .updateAccumulator _
  | complement => exact .updateAccumulator _
  | setCarry => exact .updateAccumulator _
  | flipCarry => exact .updateAccumulator _
  | jumpRelative c =>
    exact .of_eq (.bind (.inspect _) fun _ => .bind .fetchByte fun _ => .bind (.inspect _) fun _ =>
      .ite (.jumpBy _ _) (.pure ())) rfl
  | decrementJump =>
    exact .of_eq (.bind (.internalRefresh 1) fun _ => .bind (.inspect _) fun _ =>
      .bind .fetchByte fun _ => .bind (.inspect _) fun _ => .bind (.update _) fun _ =>
      .ite (.jumpBy _ _) (.pure ())) rfl
  | jump c =>
    exact .mono (.bind .fetchWord fun _ => .bind (.inspect _) fun _ =>
      .ite (.update _) (.pure ())) (show [[_, _], [_, _]] ⊆ [[_, _]] by simp)
  | jumpTo r => exact .update _
  | call c =>
    exact .of_eq (.bind .fetchWord fun _ => .bind (.inspect _) fun _ =>
      .ite (.callTo _) (.pure ())) rfl
  | ret c =>
    cases c with
    | none => exact .of_eq (.bind .pop fun _ => .update _) rfl
    | some c =>
      exact .of_eq (.bind (.internalRefresh 1) fun _ => .bind (.inspect _) fun _ =>
        .ite (.bind .pop fun _ => .update _) (.pure ())) rfl
  | restart row =>
    exact .of_eq (.bind (.internalRefresh 1) fun _ => .bind (.inspect _) fun _ =>
      .bind (.push _) fun _ => .update _) rfl
  | input =>
    exact .of_eq (.bind .immediatePort fun _ => .bind (.input _) fun _ => .update _) rfl
  | output =>
    exact .of_eq (.bind .immediatePort fun _ => .bind (.inspect _) fun _ => .output _ _) rfl
  | bitPage => exact .bitPage
  | indexedBitPage x => exact .indexedBitPage x
  | extendedPage => exact .bindOpcode .fetchOpcode fun op => .extended (Extended.decode op)
  | indexPage x => exact .pure ()

theorem perform (i : Instruction) : Built true (fun _ _ => i.perform) i.shapes :=
  .performIf i fun _ => rfl

/-- Behind a prefix DD or FD, the instruction is performed or the fetch is taken back. -/
theorem indexed (x : IndexReg) (op : UInt8) :
    Built true (fun _ _ => match (decode op).indexed x with
      | some i => i.perform
      | none => Z80.update fun r => { r.retreatRefresh with pc := r.pc - 1 })
      (Instruction.indexedShapes x op) := by
  unfold Instruction.indexedShapes
  cases (decode op).indexed x with
  | none => exact .update _
  | some i => exact .perform i

theorem execute (i : Instruction) : Built true (fun _ _ => i.execute) i.allShapes := by
  by_cases hpage : ∃ x, i = .indexPage x
  · obtain ⟨x, rfl⟩ := hpage
    exact .bindOpcode .fetchOpcode fun op => .indexed x op
  · have hexecute : (fun _ _ => i.execute : Program Unit) =
        (fun _ _ => i.perform : Program Unit) := by
      funext σ _
      exact Instruction.execute.eq_2 i fun x hx => hpage ⟨x, hx⟩
    have hshapes : i.allShapes = i.shapes :=
      Instruction.allShapes.eq_2 i fun x hx => hpage ⟨x, hx⟩
    rw [hexecute, hshapes]
    exact .perform i

theorem step : Built true (fun _ _ => do (decode (← Z80.fetchOpcode)).execute) stepShapes :=
  .bindOpcode .fetchOpcode fun op => .execute (decode op)

theorem acceptInterrupt : Built false (fun _ _ => Cpu.acceptInterrupt) interruptShapes :=
  .of_eq (.bind (.update _) fun _ => .bind (.internalRefresh 7) fun _ => .bind (.inspect _)
    fun _ => .bind (.push _) fun _ => .bind (.inspect _) fun _ =>
    .ite (.bind (.inspect _) fun _ => .bind (.readWord _) fun _ => .update _) (.update _)) rfl

theorem acceptNmi : Built false (fun _ _ => Cpu.acceptNmi) [nmiShape] :=
  .of_eq (.bind (.update _) fun _ => .bind (.internalRefresh 5) fun _ => .bind (.inspect _)
    fun _ => .bind (.push _) fun _ => .update _) rfl

end Built

set_option maxRecDepth 4096 in
/-- A step makes one or two opcode fetches, at most two writes and at most one port access, and
asks for 4 to 23 T-states. -/
theorem stepShapes_bounds : ∀ s ∈ stepShapes,
    (4 ≤ s.tstates ∧ s.tstates ≤ 23) ∧ (1 ≤ s.count .fetch ∧ s.count .fetch ≤ 2) ∧
      s.count .write ≤ 2 ∧ s.count .input + s.count .output ≤ 1 := by
  decide +kernel

end Zx81.Z80
