import Zx81.Proofs.ByteForm

namespace Zx81.Z80

/-- The register that is meant behind DD or FD: a half of the index register in the place of H or
L. -/
def Reg8.behind (x : IndexReg) : Reg8 → Reg8
  | .h => .indexHigh x
  | .l => .indexLow x
  | r => r

def Reg16.behind (x : IndexReg) : Reg16 → Reg16
  | .hl => .index x
  | r => r

namespace Registers

/-- HL and an index register exchanged. -/
def exchangeIndex (x : IndexReg) (r : Registers) : Registers :=
  { r.withIndex x r.hl with hl := r.index x }

section Exchange

variable (x : IndexReg) (r : Registers)

@[simp] theorem exchangeIndex_exchangeIndex : (r.exchangeIndex x).exchangeIndex x = r := by
  cases x <;> rfl

theorem get8_exchangeIndex {reg : Reg8} (h : reg.plain) :
    (r.exchangeIndex x).get8 reg = r.get8 (reg.behind x) := by
  cases reg with
  | indexHigh y => cases h
  | indexLow y => cases h
  | h => rfl
  | l => rfl
  | _ => cases x <;> rfl

theorem set8_exchangeIndex {reg : Reg8} (h : reg.plain) (v : UInt8) :
    (r.exchangeIndex x).set8 reg v = (r.set8 (reg.behind x) v).exchangeIndex x := by
  cases reg with
  | indexHigh y => cases h
  | indexLow y => cases h
  | _ => cases x <;> rfl

theorem get16_exchangeIndex {w : Reg16} (h : w.plain) :
    (r.exchangeIndex x).get16 w = r.get16 (w.behind x) := by
  cases w with
  | index y => cases h
  | hl => rfl
  | _ => cases x <;> rfl

theorem set16_exchangeIndex {w : Reg16} (h : w.plain) (v : UInt16) :
    (r.exchangeIndex x).set16 w v = (r.set16 (w.behind x) v).exchangeIndex x := by
  cases w with
  | index y => cases h
  | _ => cases x <;> rfl

@[simp] theorem flags_exchangeIndex : (r.exchangeIndex x).flags = r.flags := by
  cases x <;> rfl

@[simp] theorem withFlags_exchangeIndex (f : Flags) :
    (r.exchangeIndex x).withFlags f = (r.withFlags f).exchangeIndex x := by
  cases x <;> rfl

@[simp] theorem a_exchangeIndex : (r.exchangeIndex x).a = r.a := by
  cases x <;> rfl

@[simp] theorem withA_exchangeIndex (v : UInt8) :
    (r.exchangeIndex x).withA v = (r.withA v).exchangeIndex x := by
  cases x <;> rfl

end Exchange

end Registers

variable {σ α β : Type} {x : IndexReg}

def Core.exchangeIndex (x : IndexReg) : Core σ → Core σ
  | ⟨regs, elapsed, holdOff, bus⟩ => ⟨regs.exchangeIndex x, elapsed, holdOff, bus⟩

/-- The first program does with HL and an index register exchanged what the second does with both
as they are. -/
def Mirrors (x : IndexReg) (p q : Exec σ α) : Prop :=
  ∀ s, p (s.exchangeIndex x) = ((q s).1, (q s).2.exchangeIndex x)

namespace Mirrors

theorem pure (a : α) : Mirrors x (Pure.pure a : Exec σ α) (Pure.pure a) := fun _ => rfl

theorem bind {p q : Exec σ α} {f g : α → Exec σ β} (hp : Mirrors x p q)
    (hf : ∀ a, Mirrors x (f a) (g a)) : Mirrors x (p >>= f) (q >>= g) := by
  intro s
  change f (p (s.exchangeIndex x)).1 (p (s.exchangeIndex x)).2 = _
  rw [hp s]
  exact hf (q s).1 (q s).2

theorem inspect {f g : Registers → α} (h : ∀ r, f (r.exchangeIndex x) = g r) :
    Mirrors x (Z80.inspect f : Exec σ α) (Z80.inspect g) := by
  intro s
  exact congrArg (·, s.exchangeIndex x) (h s.regs)

theorem update {f g : Registers → Registers}
    (h : ∀ r, f (r.exchangeIndex x) = (g r).exchangeIndex x) :
    Mirrors x (Z80.update f : Exec σ Unit) (Z80.update g) := by
  intro s
  exact congrArg (fun regs => ((), Core.mk regs s.elapsed s.holdOff s.bus)) (h s.regs)

variable [Bus σ]

theorem charge (address : UInt16) (t : Nat) :
    Mirrors x (Z80.charge address t : Exec σ Unit) (Z80.charge address t) := fun _ => rfl

theorem readByte (address : UInt16) :
    Mirrors x (Z80.readByte address : Exec σ UInt8) (Z80.readByte address) := fun _ => rfl

theorem writeByte (address : UInt16) (v : UInt8) :
    Mirrors x (Z80.writeByte address v : Exec σ Unit) (Z80.writeByte address v) := fun _ => rfl

theorem internal (address : UInt16) (n : Nat) :
    Mirrors x (Z80.internal address n : Exec σ Unit) (Z80.internal address n) := by
  induction n with
  | zero => exact .pure ()
  | succ n ih => exact .bind (.charge address 1) fun _ => ih

theorem internalRefresh (n : Nat) :
    Mirrors x (Z80.internalRefresh n : Exec σ Unit) (Z80.internalRefresh n) :=
  .bind (.inspect fun r => by cases x <;> rfl) fun _ => .internal _ n

theorem readWord (address : UInt16) :
    Mirrors x (Z80.readWord address : Exec σ UInt16) (Z80.readWord address) :=
  .bind (.readByte _) fun _ => .bind (.readByte _) fun _ => .pure _

theorem writeWord (address w : UInt16) :
    Mirrors x (Z80.writeWord address w : Exec σ Unit) (Z80.writeWord address w) :=
  .bind (.writeByte _ _) fun _ => .writeByte _ _

theorem fetchByte : Mirrors x (Z80.fetchByte : Exec σ UInt8) Z80.fetchByte :=
  .bind (.inspect fun r => by cases x <;> rfl) fun _ =>
    .bind (.update fun r => by cases x <;> rfl) fun _ => .readByte _

theorem fetchWord : Mirrors x (Z80.fetchWord : Exec σ UInt16) Z80.fetchWord :=
  .bind .fetchByte fun _ => .bind .fetchByte fun _ => .pure _

theorem push (w : UInt16) : Mirrors x (Z80.push w : Exec σ Unit) (Z80.push w) :=
  .bind (.update fun r => by cases x <;> rfl) fun _ =>
    .bind (.inspect fun r => by cases x <;> rfl) fun _ => .bind (.writeByte _ _) fun _ =>
    .bind (.update fun r => by cases x <;> rfl) fun _ =>
    .bind (.inspect fun r => by cases x <;> rfl) fun _ => .writeByte _ _

theorem pop : Mirrors x (Z80.pop : Exec σ UInt16) Z80.pop :=
  .bind (.inspect fun r => by cases x <;> rfl) fun _ => .bind (.readByte _) fun _ =>
    .bind (.update fun r => by cases x <;> rfl) fun _ =>
    .bind (.inspect fun r => by cases x <;> rfl) fun _ => .bind (.readByte _) fun _ =>
    .bind (.update fun r => by cases x <;> rfl) fun _ => .pure _

section Register

variable {reg : Reg8} (h : reg.plain)

include h

theorem readOperand : Mirrors x (Z80.readOperand (.reg reg) : Exec σ UInt8)
    (Z80.readOperand (.reg (reg.behind x))) := by
  unfold Z80.readOperand
  apply Mirrors.inspect
  intro r
  exact r.get8_exchangeIndex x h

theorem writeOperand (v : UInt8) : Mirrors x (Z80.writeOperand (.reg reg) v : Exec σ Unit)
    (Z80.writeOperand (.reg (reg.behind x)) v) := by
  unfold Z80.writeOperand
  apply Mirrors.update
  intro r
  exact r.set8_exchangeIndex x h v

theorem modifyOperand (f : UInt8 → Flags → Result) :
    Mirrors x (Z80.modifyOperand (.reg reg) f : Exec σ Unit)
      (Z80.modifyOperand (.reg (reg.behind x)) f) := by
  unfold Z80.modifyOperand
  apply Mirrors.update
  intro r
  simp only [r.get8_exchangeIndex x h, r.set8_exchangeIndex x h, Registers.flags_exchangeIndex,
    Registers.withFlags_exchangeIndex]

theorem loadImmediate : Mirrors x (Z80.loadImmediate (.reg reg) : Exec σ Unit)
    (Z80.loadImmediate (.reg (reg.behind x))) :=
  .bind .fetchByte fun v => .update fun r => r.set8_exchangeIndex x h v

end Register

omit [Bus σ] in
theorem updateAccumulator (f : UInt8 → Flags → Result) :
    Mirrors x (Z80.updateAccumulator f : Exec σ Unit) (Z80.updateAccumulator f) := by
  unfold Z80.updateAccumulator
  apply Mirrors.update
  intro r
  simp only [Registers.a_exchangeIndex, Registers.flags_exchangeIndex,
    Registers.withA_exchangeIndex, Registers.withFlags_exchangeIndex]

section Word

variable {reg : Reg16} (h : reg.plain)

include h

omit [Bus σ] in
theorem getWord : Mirrors x (Z80.inspect (·.get16 reg) : Exec σ UInt16)
    (Z80.inspect (·.get16 (reg.behind x))) :=
  .inspect fun r => r.get16_exchangeIndex x h

omit [Bus σ] in
theorem setWord (w : UInt16) : Mirrors x (Z80.update (·.set16 reg w) : Exec σ Unit)
    (Z80.update (·.set16 (reg.behind x) w)) :=
  .update fun r => r.set16_exchangeIndex x h w

theorem updateWord {f g : UInt16 → Registers → WordResult}
    (hf : ∀ w (r : Registers), f w (r.exchangeIndex x) = g w r) :
    Mirrors x (Z80.updateWord reg f : Exec σ Unit) (Z80.updateWord (reg.behind x) g) := by
  apply Mirrors.bind (.internalRefresh 7)
  intro _
  apply Mirrors.update
  intro r
  simp only [r.get16_exchangeIndex x h, r.set16_exchangeIndex x h, hf,
    Registers.withFlags_exchangeIndex]

theorem stepWord (f : UInt16 → UInt16) : Mirrors x (Z80.stepWord reg f : Exec σ Unit)
    (Z80.stepWord (reg.behind x) f) := by
  apply Mirrors.bind (.internalRefresh 2)
  intro _
  apply Mirrors.update
  intro r
  rw [r.get16_exchangeIndex x h, r.set16_exchangeIndex x h]

theorem exchangeStack : Mirrors x (Z80.exchangeStack reg : Exec σ Unit)
    (Z80.exchangeStack (reg.behind x)) :=
  .bind (.getWord h) fun _ => .bind (.inspect fun r => by cases x <;> rfl) fun _ =>
    .bind (.readWord _) fun w => .bind (.internal _ 1) fun _ => .bind (.writeByte _ _) fun _ =>
    .bind (.writeByte _ _) fun _ => .bind (.internal _ 2) fun _ => .setWord h w

end Word

end Mirrors

theorem Reg16.map_indexed {r : Reg16} {f : Reg16 → Instruction} {i : Instruction}
    (h : (r.indexed x).map f = some i) : r.plain ∧ i = f (r.behind x) := by
  cases r with
  | hl =>
    cases h
    exact ⟨rfl, rfl⟩
  | _ => cases h

theorem Reg16.getD_indexed (r : Reg16) : (r.indexed x).getD r = r.behind x := by
  cases r <;> rfl

theorem Operand.map_indexed {o : Operand} {f : Operand → Instruction} {i : Instruction}
    (h : (o.indexed x).map f = some i) :
    o = .mem .hl ∨ ∃ r : Reg8, r.plain ∧ o = .reg r ∧ i = f (.reg (r.behind x)) := by
  cases o with
  | mem m =>
    cases m with
    | hl => exact .inl rfl
    | displaced y => cases h
  | reg r =>
    right
    cases r with
    | h =>
      cases h
      exact ⟨.h, rfl, rfl, rfl⟩
    | l =>
      cases h
      exact ⟨.l, rfl, rfl, rfl⟩
    | _ => cases h

theorem Operand.orIndexed_reg (r : Reg8) :
    (Operand.reg r).orIndexed x = .reg (r.behind x) := by
  cases r <;> rfl

/-- Between registers, both operands of a load are replaced. -/
theorem Instruction.indexedLoad_reg {dst src : Reg8} {i : Instruction}
    (h : indexedLoad x (.reg dst) (.reg src) = some i) :
    i = .load (.reg (dst.behind x)) (.reg (src.behind x)) := by
  rw [← Operand.orIndexed_reg, ← Operand.orIndexed_reg]
  change (if _ then some _ else none) = some i at h
  split at h
  · cases h
    rfl
  · cases h

/-- An instruction that names HL or a half of it, and no byte in memory by HL, does with the index
register what it does with HL when the two are exchanged. -/
theorem Mirrors.perform [Bus σ] {b i : Instruction} (h : b.indexed x = some i) (hplain : b.plain)
    (hform : ByteForm.of? b = none) (hpage : b ≠ .bitPage) :
    Mirrors x (b.perform : Exec σ Unit) i.perform := by
  cases b with
  | exchangeStack r =>
    obtain ⟨hr, rfl⟩ := Reg16.map_indexed h
    exact .exchangeStack hr
  | load dst src =>
    match dst, src with
    | .reg dst, .reg src =>
      obtain rfl := Instruction.indexedLoad_reg h
      obtain ⟨hdst, hsrc⟩ := Bool.and_eq_true_iff.mp hplain
      exact .bind (.readOperand hsrc) fun v => .writeOperand hdst v
    | .reg _, .mem .hl => cases hform
    | .mem .hl, .reg _ => cases hform
  | loadImmediate dst =>
    obtain rfl | ⟨r, hr, rfl, rfl⟩ := Operand.map_indexed h
    · cases hform
    · exact .loadImmediate hr
  | loadWord r =>
    obtain ⟨hr, rfl⟩ := Reg16.map_indexed h
    exact .bind .fetchWord fun w => .setWord hr w
  | loadWordAt r =>
    obtain ⟨hr, rfl⟩ := Reg16.map_indexed h
    exact .bind .fetchWord fun _ => .bind (.readWord _) fun w => .setWord hr w
  | storeWordAt r =>
    obtain ⟨hr, rfl⟩ := Reg16.map_indexed h
    exact .bind .fetchWord fun _ => .bind (.getWord hr) fun _ => .writeWord _ _
  | loadStackPointer r =>
    obtain ⟨hr, rfl⟩ := Reg16.map_indexed h
    apply Mirrors.bind (.internalRefresh 2)
    intro _
    apply Mirrors.update
    intro r
    rw [r.get16_exchangeIndex x hr]
    cases x <;> rfl
  | push r =>
    obtain ⟨hr, rfl⟩ := Reg16.map_indexed h
    exact .bind (.internalRefresh 1) fun _ => .bind (.getWord hr) fun _ => .push _
  | pop r =>
    obtain ⟨hr, rfl⟩ := Reg16.map_indexed h
    exact .bind .pop fun w => .setWord hr w
  | inc o =>
    obtain rfl | ⟨r, hr, rfl, rfl⟩ := Operand.map_indexed h
    · cases hform
    · exact .modifyOperand hr _
  | dec o =>
    obtain rfl | ⟨r, hr, rfl, rfl⟩ := Operand.map_indexed h
    · cases hform
    · exact .modifyOperand hr _
  | incWord r =>
    obtain ⟨hr, rfl⟩ := Reg16.map_indexed h
    exact .stepWord hr (· + 1)
  | decWord r =>
    obtain ⟨hr, rfl⟩ := Reg16.map_indexed h
    exact .stepWord hr (· - 1)
  | addWord dst src =>
    obtain ⟨hdst, rfl⟩ := Reg16.map_indexed h
    simp only [Instruction.perform, Reg16.getD_indexed]
    apply Mirrors.updateWord hdst
    intro w r
    rw [r.get16_exchangeIndex x hplain, Registers.flags_exchangeIndex]
  | alu op src =>
    obtain rfl | ⟨r, hr, rfl, rfl⟩ := Operand.map_indexed h
    · cases hform
    · unfold Instruction.perform
      exact .bind (.readOperand hr) fun v => .updateAccumulator _
  | jumpTo r =>
    obtain ⟨hr, rfl⟩ := Reg16.map_indexed h
    simp only [Instruction.perform]
    apply Mirrors.update
    intro r
    rw [r.get16_exchangeIndex x hr]
    cases x <;> rfl
  | bitPage => exact absurd rfl hpage
  | _ => cases h

end Zx81.Z80
