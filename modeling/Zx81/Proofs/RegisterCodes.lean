import Zx81.Proofs.BusAccounting

namespace Zx81.Z80

/-- The byte register that a code names. On a page of an index register its halves stand in the
place of H and L. -/
def registerAt (x? : Option IndexReg) (code : Fin 8) : Option Reg8 :=
  match code, x? with
  | 0, _ => some .b
  | 1, _ => some .c
  | 2, _ => some .d
  | 3, _ => some .e
  | 4, none => some .h
  | 5, none => some .l
  | 4, some x => some (.indexHigh x)
  | 5, some x => some (.indexLow x)
  | 6, _ => none
  | _, _ => some .a

theorem registerAt_eq_none_iff {x? : Option IndexReg} {code : Fin 8} :
    registerAt x? code = none ↔ code.val = 6 := by
  have hall : ∀ x? ∈ [none, some IndexReg.ix, some .iy], ∀ code,
      registerAt x? code = none ↔ code.val = 6 := by decide
  refine hall x? ?_ code
  rcases x? with _ | _ | _ <;> simp

theorem exists_registerAt (x? : Option IndexReg) {code : Fin 8} (h : code.val ≠ 6) :
    ∃ r, registerAt x? code = some r :=
  Option.ne_none_iff_exists'.1 fun hnone => h (registerAt_eq_none_iff.1 hnone)

/-- Without an index register the codes name the registers that the decoder reads off them. -/
theorem registerAt_none (code : Fin 8) : registerAt none code = Reg8.ofCode? code := by
  revert code
  decide

theorem Operand.ofCode_eq {code : Fin 8} {r : Reg8} (h : registerAt none code = some r) :
    Operand.ofCode code = .reg r := by
  rw [registerAt_none, Reg8.ofCode?] at h
  cases hoperand : Operand.ofCode code with
  | reg r' =>
    rw [hoperand] at h
    exact congrArg Operand.reg (Option.some.inj h)
  | mem m =>
    rw [hoperand] at h
    cases h

/-- A program of machine cycles that may reach for a register that there is not. -/
abbrev PartialExec (σ : Type) := StateT (Core σ) Option

section Programs

variable {σ α β : Type}

/-- A program that reaches for no register by its code. -/
def total (p : Exec σ α) : PartialExec σ α := fun s => some (p s)

theorem total_bind (p : Exec σ α) (f : α → Exec σ β) :
    total (p >>= f) = total p >>= fun a => total (f a) := rfl

theorem total_ite (c : Prop) [Decidable c] (p q : Exec σ α) :
    total (if c then p else q) = if c then total p else total q := apply_ite total c p q

/-- Reads the register that a code names. -/
def readCode (x? : Option IndexReg) (code : Fin 8) : PartialExec σ UInt8 :=
  match registerAt x? code with
  | some r => total (inspect (·.get8 r))
  | none => failure

def writeCode (x? : Option IndexReg) (code : Fin 8) (v : UInt8) : PartialExec σ Unit :=
  match registerAt x? code with
  | some r => total (update (·.set8 r v))
  | none => failure

/-- Replaces the register that a code names by the result of an operation on it. -/
def modifyCode (x? : Option IndexReg) (code : Fin 8) (f : UInt8 → Flags → Result) :
    PartialExec σ Unit := do
  let v ← readCode x? code
  let result := f v (← total (inspect (·.flags)))
  writeCode x? code result.value
  total (update (·.withFlags result.flags))

section Named

variable {x? : Option IndexReg} {code : Fin 8} {r : Reg8} (h : registerAt x? code = some r)

include h

theorem readCode_eq : readCode x? code = total (σ := σ) (inspect (·.get8 r)) := by
  rw [readCode, h]

theorem writeCode_eq (v : UInt8) :
    writeCode x? code v = total (σ := σ) (update (·.set8 r v)) := by
  rw [writeCode, h]

theorem modifyCode_eq [Bus σ] (f : UInt8 → Flags → Result) :
    modifyCode x? code f = total (σ := σ) (modifyOperand (.reg r) f) := by
  simp only [modifyCode, readCode_eq h, writeCode_eq h]
  rfl

end Named

variable [Bus σ]

namespace BitPage

/-- The instruction behind CB, its register reached by its code. -/
def performByCode : PartialExec σ Unit := do
  let opcode ← total fetchOpcode
  let op := BitOp.decode opcode
  let code := opcodeColumn opcode
  if code.val = 6 then
    total (onOperand op (.mem .hl))
  else
    let v ← readCode none code
    let result := op.apply v v (← total (inspect (·.flags)))
    total (update (·.withFlags result.flags))
    if op.writes then
      writeCode none code result.value

/-- Copies a result to the register that the code of an opcode names. -/
def copyToCode (opcode value : UInt8) : PartialExec σ Unit :=
  let code := opcodeColumn opcode
  if code.val = 6 then pure () else writeCode none code value

/-- The instruction behind DD CB or FD CB, the register for its result reached by its code. -/
def performIndexedByCode (x : IndexReg) : PartialExec σ Unit := do
  let d ← total fetchByte
  let address ← total (inspect fun r => displace (r.index x).word d)
  let pc ← total (inspect (·.pc))
  let opcode ← total (readByte pc)
  total (internal pc 2)
  total (update fun r => { r with pc := pc + 1 })
  let op := BitOp.decode opcode
  let value ← total (onMemory op address fun _ => Arithmetic.highByte address)
  if op.writes then
    copyToCode opcode value

end BitPage

theorem BitPage.performByCode_eq : BitPage.performByCode = total (σ := σ) BitPage.perform := by
  unfold performByCode perform
  rw [total_bind]
  refine bind_congr fun opcode => ?_
  by_cases hcode : (opcodeColumn opcode).val = 6
  · have hsix : opcodeColumn opcode = 6 := Fin.ext hcode
    rw [if_pos hcode, hsix]
    rfl
  · obtain ⟨r, hr⟩ := exists_registerAt none hcode
    simp only [if_neg hcode, Operand.ofCode_eq hr, readCode_eq hr, writeCode_eq hr]
    cases BitOp.decode opcode <;> rfl

omit [Bus σ] in
theorem BitPage.copyToCode_eq (opcode value : UInt8) :
    BitPage.copyToCode opcode value = total (σ := σ) (BitPage.copyTo opcode value) := by
  unfold copyToCode copyTo
  rw [← registerAt_none]
  by_cases hcode : (opcodeColumn opcode).val = 6
  · have hsix : opcodeColumn opcode = 6 := Fin.ext hcode
    rw [if_pos hcode, hsix]
    rfl
  · obtain ⟨r, hr⟩ := exists_registerAt none hcode
    simp only [if_neg hcode, hr, writeCode_eq hr]

theorem BitPage.performIndexedByCode_eq (x : IndexReg) :
    BitPage.performIndexedByCode x = total (σ := σ) (BitPage.performIndexed x) := by
  simp only [performIndexedByCode, performIndexed, total_bind, total_ite, copyToCode_eq]
  rfl

/-- The byte register of an instruction behind ED is the one that the code in its opcode names. -/
def Extended.namedBy (op : UInt8) (e : Extended) : Bool :=
  match e with
  | .input reg | .output reg => reg = registerAt none (opcodeRow op)
  | _ => true

/-- The instruction behind ED, its byte register reached by its code. -/
def Extended.performByCode (op : UInt8) (e : Extended) : PartialExec σ Unit :=
  let code := opcodeRow op
  match e with
  | .input _ => do
    let v ← total (do readPort (← inspect (·.bc.word)))
    total (update fun r => r.withFlags (inputFlags r.flags v))
    if code.val ≠ 6 then
      writeCode none code v
  | .output _ => do
    let v ← if code.val = 6 then pure 0 else readCode none code
    total (do writePort (← inspect (·.bc.word)) v)
  | e => total e.perform

theorem Extended.namedBy_decode (op : UInt8) : (Extended.decode op).namedBy op := by
  revert op
  exact forall_opcode (by decide +kernel)

theorem Extended.performByCode_eq {op : UInt8} {e : Extended} (h : e.namedBy op) :
    e.performByCode op = total (σ := σ) e.perform := by
  cases e with
  | input reg =>
    obtain rfl : reg = registerAt none (opcodeRow op) := of_decide_eq_true h
    unfold performByCode perform
    by_cases hcode : (opcodeRow op).val = 6
    · have hsix : opcodeRow op = 6 := Fin.ext hcode
      simp only [hsix]
      rfl
    · obtain ⟨r, hr⟩ := exists_registerAt none hcode
      simp only [ne_eq, hcode, not_false_eq_true, if_true, hr, writeCode_eq hr]
      rfl
  | output reg =>
    obtain rfl : reg = registerAt none (opcodeRow op) := of_decide_eq_true h
    unfold performByCode perform
    by_cases hcode : (opcodeRow op).val = 6
    · have hsix : opcodeRow op = 6 := Fin.ext hcode
      simp only [hsix]
      rfl
    · obtain ⟨r, hr⟩ := exists_registerAt none hcode
      simp only [hcode, if_false, hr, readCode_eq hr]
      rfl
  | _ => rfl

namespace Instruction

/-- An instruction that an opcode selects, its byte registers reached by their codes. Beside a byte
in memory, H and L are themselves also on the pages of the index registers. -/
def performByCode (x? : Option IndexReg) (op : UInt8) (i : Instruction) : PartialExec σ Unit :=
  let row := opcodeRow op
  let column := opcodeColumn op
  match i with
  | .inc (.reg _) => modifyCode x? row Arithmetic.inc
  | .dec (.reg _) => modifyCode x? row Arithmetic.dec
  | .loadImmediate (.reg _) => do writeCode x? row (← total fetchByte)
  | .load (.reg _) (.reg _) => do writeCode x? row (← readCode x? column)
  | .load (.reg _) (.mem m) => do writeCode none row (← total (readOperand (.mem m)))
  | .load (.mem m) (.reg _) => do
    let v ← readCode none column
    total (writeOperand (.mem m) v)
  | .alu op (.reg _) => do
    let v ← readCode x? column
    total (updateAccumulator (op.apply · v))
  | .bitPage => BitPage.performByCode
  | .indexedBitPage x => BitPage.performIndexedByCode x
  | .extendedPage => do
    let op ← total fetchOpcode
    (Extended.decode op).performByCode op
  | i => total i.perform

/-- What is done behind a prefix DD or FD and the opcode after it. -/
def indexedByCode (x : IndexReg) (op : UInt8) : PartialExec σ Unit :=
  match (decode op).indexed x with
  | some i => i.performByCode (some x) op
  | none => total (update fun r => { r.retreatRefresh with pc := r.pc - 1 })

/-- The effect of an instruction behind its opcode, its byte registers reached by their codes. -/
def executeByCode (op : UInt8) (i : Instruction) : PartialExec σ Unit :=
  match i with
  | .indexPage x => do indexedByCode x (← total fetchOpcode)
  | i => i.performByCode none op

/-- The byte registers that an instruction names are those that the codes of an opcode name. -/
def namedBy (x? : Option IndexReg) (op : UInt8) (i : Instruction) : Bool :=
  let row := opcodeRow op
  let column := opcodeColumn op
  match i with
  | .inc (.reg r) | .dec (.reg r) | .loadImmediate (.reg r) => registerAt x? row = some r
  | .load (.reg dst) (.reg src) => registerAt x? row = some dst ∧ registerAt x? column = some src
  | .load (.reg dst) (.mem _) => registerAt none row = some dst
  | .load (.mem _) (.reg src) => registerAt none column = some src
  | .alu _ (.reg src) => registerAt x? column = some src
  | _ => true

theorem namedBy_decode (op : UInt8) : (decode op).namedBy none op := by
  revert op
  exact forall_opcode (by decide +kernel)

theorem namedBy_indexed {x : IndexReg} {op : UInt8} {i : Instruction}
    (h : (decode op).indexed x = some i) : i.namedBy (some x) op := by
  have hall : ∀ op, ∀ i ∈ ((decode op).indexed x).toList, i.namedBy (some x) op := by
    cases x <;> exact forall_opcode (by decide +kernel)
  exact hall op i (by simp [h])

/-- An instruction reaches its registers by the codes of an opcode that names them. -/
theorem performByCode_eq {x? : Option IndexReg} {op : UInt8} {i : Instruction}
    (h : i.namedBy x? op) : i.performByCode x? op = total (σ := σ) i.perform := by
  cases i with
  | inc o | dec o =>
    cases o with
    | reg r => exact modifyCode_eq (of_decide_eq_true h) _
    | mem m => rfl
  | loadImmediate o =>
    cases o with
    | reg r =>
      simp only [performByCode, writeCode_eq (of_decide_eq_true h)]
      rfl
    | mem m => rfl
  | load dst src =>
    cases dst with
    | reg r =>
      cases src with
      | reg r' =>
        obtain ⟨hdst, hsrc⟩ := of_decide_eq_true h
        simp only [performByCode, readCode_eq hsrc, writeCode_eq hdst]
        rfl
      | mem m =>
        simp only [performByCode, writeCode_eq (of_decide_eq_true h)]
        rfl
    | mem m =>
      cases src with
      | reg r =>
        simp only [performByCode, readCode_eq (of_decide_eq_true h)]
        rfl
      | mem m' => rfl
  | alu f src =>
    cases src with
    | reg r =>
      simp only [performByCode, readCode_eq (of_decide_eq_true h)]
      rfl
    | mem m => rfl
  | bitPage => exact BitPage.performByCode_eq
  | indexedBitPage x => exact BitPage.performIndexedByCode_eq x
  | extendedPage =>
    exact bind_congr fun op => Extended.performByCode_eq (Extended.namedBy_decode op)
  | _ => rfl

theorem indexedByCode_eq (x : IndexReg) (op : UInt8) :
    indexedByCode x op = total (σ := σ) (match (decode op).indexed x with
      | some i => i.perform
      | none => update fun r => { r.retreatRefresh with pc := r.pc - 1 }) := by
  unfold indexedByCode
  cases hindexed : (decode op).indexed x with
  | none => rfl
  | some i => exact performByCode_eq (namedBy_indexed hindexed)

theorem executeByCode_eq (op : UInt8) :
    (decode op).executeByCode op = total (σ := σ) (decode op).execute := by
  have hnamed := namedBy_decode op
  cases hdecode : decode op with
  | indexPage x => exact bind_congr fun op => indexedByCode_eq x op
  | _ =>
    rw [hdecode] at hnamed
    exact performByCode_eq hnamed

end Instruction

namespace Cpu

def stepByCode (cpu : Cpu) (bus : σ) : Option (Stepped σ) :=
  let program : PartialExec σ Unit := do
    let op ← total fetchOpcode
    (decode op).executeByCode op
  (program ⟨cpu.regs, 0, false, bus⟩).map fun answer => answer.2.settle cpu.ticks

/-- A step never reaches for a register by code 6. -/
theorem stepByCode_eq (cpu : Cpu) (bus : σ) : cpu.stepByCode bus = some (cpu.step bus) := by
  have hprogram : (do let op ← total fetchOpcode; (decode op).executeByCode op) =
      total (σ := σ) (do (decode (← fetchOpcode)).execute) :=
    bind_congr fun op => Instruction.executeByCode_eq op
  unfold stepByCode
  rw [hprogram]
  rfl

end Cpu

end Programs
end Zx81.Z80
