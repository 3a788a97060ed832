import Zx81.Bus.Flat
import Zx81.Proofs.InstructionShape

namespace Zx81.Z80

/-- The opcodes that name a byte at a displacement behind DD and FD, CB apart. -/
def displacedOpcodes : List UInt8 :=
  [0x34, 0x35, 0x36, 0x46, 0x4E, 0x56, 0x5E, 0x66, 0x6E, 0x70, 0x71, 0x72, 0x73, 0x74, 0x75, 0x77,
    0x7E, 0x86, 0x8E, 0x96, 0x9E, 0xA6, 0xAE, 0xB6, 0xBE]

/-- A register that an opcode field selects. -/
def Reg8.plain : Reg8 → Bool
  | .indexHigh _ => false
  | .indexLow _ => false
  | _ => true

def Reg16.plain : Reg16 → Bool
  | .index _ => false
  | _ => true

/-- The instructions of the main page name no index register, and one byte in memory at most. -/
def Instruction.plain : Instruction → Bool
  | .load (.reg dst) (.reg src) => dst.plain && src.plain
  | .load (.reg dst) (.mem .hl) => dst.plain
  | .load (.mem .hl) (.reg src) => src.plain
  | .load _ _ => false
  | .addWord _ src => src.plain
  | _ => true

theorem plain_decode (op : UInt8) : (decode op).plain := by
  revert op
  exact forall_opcode (by decide +kernel)

theorem Registers.get8_frame (r : Registers) (reg : Reg8) (pc : UInt16) (refresh : UInt8) :
    ({ r with pc, refresh } : Registers).get8 reg = r.get8 reg := by
  cases reg with
  | indexHigh x => cases x <;> rfl
  | indexLow x => cases x <;> rfl
  | _ => rfl

theorem Registers.pc_set8 (r : Registers) (reg : Reg8) (v : UInt8) :
    (r.set8 reg v).pc = r.pc := by
  cases reg with
  | indexHigh x => cases x <;> rfl
  | indexLow x => cases x <;> rfl
  | _ => rfl

theorem Registers.index_set8 (r : Registers) {reg : Reg8} (h : reg.plain) (v : UInt8)
    (x : IndexReg) : (r.set8 reg v).index x = r.index x := by
  cases reg with
  | indexHigh y => cases h
  | indexLow y => cases h
  | _ => cases x <;> rfl

theorem Registers.index_pc (r : Registers) (pc : UInt16) (x : IndexReg) :
    ({ r with pc } : Registers).index x = r.index x := by
  cases x <;> rfl

/-- An instruction that names one byte in memory. -/
inductive ByteForm where
  | load (r : Reg8)
  | store (r : Reg8)
  | storeImmediate
  | inc
  | dec
  | alu (op : AluOp)
  deriving DecidableEq

namespace ByteForm

def instruction (m : MemoryOperand) : ByteForm → Instruction
  | load r => .load (.reg r) (.mem m)
  | store r => .load (.mem m) (.reg r)
  | storeImmediate => .loadImmediate (.mem m)
  | inc => .inc (.mem m)
  | dec => .dec (.mem m)
  | alu op => .alu op (.mem m)

/-- The form of an instruction that names the byte at HL. -/
def of? : Instruction → Option ByteForm
  | .load (.reg r) (.mem .hl) => some (load r)
  | .load (.mem .hl) (.reg r) => some (store r)
  | .loadImmediate (.mem .hl) => some storeImmediate
  | .inc (.mem .hl) => some inc
  | .dec (.mem .hl) => some dec
  | .alu op (.mem .hl) => some (alu op)
  | _ => none

theorem eq_of_of? {i : Instruction} {f : ByteForm} (h : of? i = some f) :
    i = f.instruction .hl := by
  unfold of? at h
  split at h <;> cases h <;> rfl

theorem indexed_instruction (x : IndexReg) (f : ByteForm) :
    (f.instruction .hl).indexed x = some (f.instruction (.displaced x)) := by
  cases f <;> rfl

/-- What the instruction does to registers and memory, PC apart, with the byte at address `a` and
the immediate operand `n`. -/
def effect (f : ByteForm) (a : UInt16) (n : UInt8) (r : Registers) (ram : Ram) : Registers × Ram :=
  let v := ram.get a
  match f with
  | load reg => (r.set8 reg v, ram)
  | store reg => (r, ram.set a (r.get8 reg))
  | storeImmediate => (r, ram.set a n)
  | inc =>
    let result := Arithmetic.inc v r.flags
    (r.withFlags result.flags, ram.set a result.value)
  | dec =>
    let result := Arithmetic.dec v r.flags
    (r.withFlags result.flags, ram.set a result.value)
  | alu op =>
    let result := op.apply r.a v r.flags
    ((r.withA result.value).withFlags result.flags, ram)

/-- PC after the immediate operand, if there is one. -/
def next (f : ByteForm) (pc : UInt16) : UInt16 :=
  match f with
  | storeImmediate => pc + 1
  | _ => pc

/-- The T-states after the opcode. -/
def tstates : ByteForm → Nat
  | storeImmediate => 6
  | inc | dec => 7
  | _ => 3

/-- The T-states that a displacement adds. -/
def delay : ByteForm → Nat
  | storeImmediate => 5
  | _ => 8

/-- The processor after the effect, with PC and clock set. -/
def after (f : ByteForm) (a : UInt16) (n : UInt8) (pc : UInt16) (elapsed : Nat)
    (s : Core FlatBus) : Core FlatBus :=
  let e := f.effect a n { s.regs with pc } s.bus.ram
  ⟨e.1, elapsed, s.holdOff, { s.bus with ram := e.2 }⟩

variable (f : ByteForm) (s : Core FlatBus) (hwait : s.bus.waitStates = 0)

include hwait

theorem perform_hl : (f.instruction .hl).perform s =
    ((), f.after s.regs.hl.word (s.bus.ram.get s.regs.pc) (f.next s.regs.pc)
      (s.elapsed + f.tstates) s) := by
  obtain ⟨r, elapsed, holdOff, ram, ports, sent, waits⟩ := s
  obtain rfl : waits = 0 := hwait
  cases f <;> rfl

theorem perform_displaced (x : IndexReg) : (f.instruction (.displaced x)).perform s =
    ((), f.after (displace (s.regs.index x).word (s.bus.ram.get s.regs.pc))
      (s.bus.ram.get (s.regs.pc + 1)) (f.next (s.regs.pc + 1))
      (s.elapsed + (f.tstates + f.delay)) s) := by
  obtain ⟨r, elapsed, holdOff, ram, ports, sent, waits⟩ := s
  obtain rfl : waits = 0 := hwait
  cases f with
  | store reg =>
    -- the register is read before the displacement is fetched
    simp only [after, effect, Registers.get8_frame]
    cases x <;> rfl
  | _ => cases x <;> rfl

omit hwait

theorem pc_effect (a : UInt16) (n : UInt8) (r : Registers) (ram : Ram) :
    (f.effect a n r ram).1.pc = r.pc := by
  cases f with
  | load reg => exact r.pc_set8 reg _
  | _ => rfl

theorem next_succ (pc : UInt16) : f.next (pc + 1) = f.next pc + 1 := by
  cases f <;> rfl

/-- The index registers are left as they are. -/
theorem index_effect (a : UInt16) (n : UInt8) (r : Registers) (ram : Ram)
    (h : (f.instruction .hl).plain) (y : IndexReg) :
    (f.effect a n r ram).1.index y = r.index y := by
  cases f with
  | load reg => exact r.index_set8 h _ y
  | _ => cases y <;> rfl

end ByteForm

theorem mem_displacedOpcodes (op : UInt8) :
    op ∈ displacedOpcodes ↔ (ByteForm.of? (decode op)).isSome := by
  have hall : opcodes.filter (fun op => (ByteForm.of? (decode op)).isSome) = displacedOpcodes := by
    decide +kernel
  rw [← hall, List.mem_filter]
  exact and_iff_right (mem_opcodes op)

theorem storeImmediate_iff (op : UInt8) :
    ByteForm.of? (decode op) = some .storeImmediate ↔ op = 0x36 := by
  revert op
  exact forall_opcode (by decide +kernel)

end Zx81.Z80
