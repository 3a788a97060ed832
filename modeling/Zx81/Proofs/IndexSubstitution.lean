import Zx81.Proofs.FlatStep
import Zx81.Proofs.RegisterExchange

namespace Zx81.Z80

/-- The opcode that selects the page of an index register. -/
def IndexReg.opcode : IndexReg → UInt8
  | .ix => 0xDD
  | .iy => 0xFD

theorem decode_opcode (x : IndexReg) : decode x.opcode = .indexPage x := by
  cases x <;> decide

theorem eq_of_bitPage {op : UInt8} (h : decode op = .bitPage) : op = 0xCB := by
  have hall : ∀ op, decode op = .bitPage → op = 0xCB := forall_opcode (by decide +kernel)
  exact hall op h

/-- The opcodes of the pages behind DD and FD. -/
def indexOpcodes : List UInt8 :=
  [0x09, 0x19, 0x21, 0x22, 0x23, 0x24, 0x25, 0x26, 0x29, 0x2A, 0x2B, 0x2C, 0x2D, 0x2E, 0x34, 0x35,
    0x36, 0x39, 0x44, 0x45, 0x46, 0x4C, 0x4D, 0x4E, 0x54, 0x55, 0x56, 0x5C, 0x5D, 0x5E, 0x60,
    0x61, 0x62, 0x63, 0x64, 0x65, 0x66, 0x67, 0x68, 0x69, 0x6A, 0x6B, 0x6C, 0x6D, 0x6E, 0x6F,
    0x70, 0x71, 0x72, 0x73, 0x74, 0x75, 0x77, 0x7C, 0x7D, 0x7E, 0x84, 0x85, 0x86, 0x8C, 0x8D,
    0x8E, 0x94, 0x95, 0x96, 0x9C, 0x9D, 0x9E, 0xA4, 0xA5, 0xA6, 0xAC, 0xAD, 0xAE, 0xB4, 0xB5,
    0xB6, 0xBC, 0xBD, 0xBE, 0xCB, 0xE1, 0xE3, 0xE5, 0xE9, 0xF9]

/-- Both index registers have a page of the same opcodes. -/
theorem mem_indexOpcodes (op : UInt8) (x : IndexReg) :
    op ∈ indexOpcodes ↔ ((decode op).indexed x).isSome := by
  have hall : opcodes.filter (fun op => ((decode op).indexed x).isSome) = indexOpcodes := by
    cases x with
    | ix => decide +kernel
    | iy => decide +kernel
  rw [← hall, List.mem_filter]
  exact and_iff_right (mem_opcodes op)

variable {σ : Type} {x : IndexReg}

theorem Instruction.execute_of_indexed [Bus σ] {b i : Instruction} (h : b.indexed x = some i) :
    (b.execute : Exec σ Unit) = b.perform := by
  cases b with
  | indexPage y => cases h
  | _ => rfl

/-- On plain memory a program does the same whenever it begins. -/
theorem Built.later {holds : Bool} {p : Program Unit} {S : List Shape} (h : Built holds p S)
    (t : Nat) (s : Core FlatBus) :
    (p FlatBus (s.onto fun y => (y.1 + t, y.2))).2 =
      (p FlatBus s).2.onto fun y => (y.1 + t, y.2) := by
  apply h.onto
  rintro c _ ⟨elapsed, bus⟩ rfl
  have hadd (k : Nat) : elapsed + t + k = elapsed + k + t := Nat.add_right_comm _ _ _
  cases c <;> exact ⟨rfl, congrArg (·, _) (hadd _)⟩

namespace Cpu

def exchangeIndex (x : IndexReg) (cpu : Cpu) : Cpu :=
  { cpu with regs := cpu.regs.exchangeIndex x }

section Step

variable (cpu : Cpu) (bus : FlatBus) (hwait : bus.waitStates = 0)

include hwait

/-- A step that begins with an opcode of the index pages. -/
theorem step_behind (hopcode : bus.ram.get cpu.regs.pc = x.opcode) {i : Instruction}
    (hi : (decode (bus.ram.get cpu.pastOpcode.regs.pc)).indexed x = some i) :
    cpu.step bus =
      (i.perform ⟨cpu.pastOpcode.pastOpcode.regs, 8, false, bus⟩).2.settle cpu.ticks := by
  have hfetch := cpu.pastOpcode.fetchOpcode_flat bus hwait 4 false
  rw [cpu.step_flat bus hwait, hopcode, decode_opcode, Instruction.execute]
  simp only [bind, StateT.bind, hfetch, hi]

end Step

end Cpu

/-- The processor at the next instruction boundary, `t` T-states and the effect of an instruction
later. -/
def ByteForm.outcome (f : ByteForm) (cpu : Cpu) (bus : FlatBus) (a : UInt16) (n : UInt8)
    (pc : UInt16) (t : Nat) : Stepped FlatBus :=
  let e := f.effect a n { cpu.regs with pc } bus.ram
  ⟨⟨e.1, false, cpu.ticks + t⟩, { bus with ram := e.2 }, t⟩

namespace Cpu

section Substitution

variable (cpu : Cpu) (bus : FlatBus) (hwait : bus.waitStates = 0)
  (hopcode : bus.ram.get cpu.regs.pc = x.opcode)

include hwait hopcode

/-- An instruction that does not name a byte in memory by HL. -/
theorem step_exchanged {i : Instruction}
    (hi : (decode (bus.ram.get cpu.pastOpcode.regs.pc)).indexed x = some i)
    (hform : ByteForm.of? (decode (bus.ram.get cpu.pastOpcode.regs.pc)) = none)
    (hpage : decode (bus.ram.get cpu.pastOpcode.regs.pc) ≠ .bitPage) :
    let t := (cpu.pastOpcode.exchangeIndex x).step bus
    cpu.step bus =
      ⟨{ t.cpu.exchangeIndex x with ticks := t.cpu.ticks + 4 }, t.bus, t.tstates + 4⟩ := by
  let fetched : Core FlatBus := ⟨cpu.pastOpcode.pastOpcode.regs, 4, false, bus⟩
  have hpc : (cpu.pastOpcode.exchangeIndex x).regs.pc = cpu.pastOpcode.regs.pc := by
    cases x <;> rfl
  have hnext : (cpu.pastOpcode.exchangeIndex x).pastOpcode.regs =
      cpu.pastOpcode.pastOpcode.regs.exchangeIndex x := by
    cases x <;> rfl
  have hmirror := Mirrors.perform hi (plain_decode _) hform hpage fetched
  have hlater := (Built.perform i).later 4 fetched
  have hbase : (cpu.pastOpcode.exchangeIndex x).step bus =
      ((i.perform fetched).2.exchangeIndex x).settle cpu.ticks := by
    rw [step_flat _ bus hwait, hpc, hnext, Instruction.execute_of_indexed hi]
    exact congrArg (fun r : Unit × Core FlatBus => r.2.settle cpu.ticks) hmirror
  have hindexed : cpu.step bus =
      ((i.perform fetched).2.onto fun y => (y.1 + 4, y.2)).settle cpu.ticks := by
    rw [cpu.step_behind bus hwait hopcode hi]
    exact congrArg (Core.settle · cpu.ticks) hlater
  intro t
  have ht : t = ((i.perform fetched).2.exchangeIndex x).settle cpu.ticks := hbase
  rw [hindexed, ht]
  generalize (i.perform fetched).2 = u
  obtain ⟨regs, elapsed, holdOff, bus⟩ := u
  simp only [Core.settle, Core.onto, Core.exchangeIndex, exchangeIndex,
    Registers.exchangeIndex_exchangeIndex, Nat.add_assoc]

/-- An instruction that names the byte at HL. -/
theorem step_displaced {f : ByteForm}
    (hf : decode (bus.ram.get cpu.pastOpcode.regs.pc) = f.instruction .hl) :
    let fetched := cpu.pastOpcode.pastOpcode
    let d := bus.ram.get fetched.regs.pc
    cpu.pastOpcode.step bus = f.outcome fetched bus fetched.regs.hl.word d (f.next fetched.regs.pc)
        (4 + f.tstates) ∧
      cpu.step bus = f.outcome fetched bus (displace (fetched.regs.index x).word d)
        (bus.ram.get (fetched.regs.pc + 1)) (f.next (fetched.regs.pc + 1))
        (8 + (f.tstates + f.delay)) := by
  intro fetched d
  have hindexed := f.indexed_instruction x
  have hexecute : ((f.instruction .hl).execute : Exec FlatBus Unit) =
      (f.instruction .hl).perform := Instruction.execute_of_indexed hindexed
  constructor
  · rw [step_flat _ bus hwait, hf, hexecute, f.perform_hl ⟨fetched.regs, 4, false, bus⟩ hwait]
    rfl
  · rw [← hf] at hindexed
    rw [cpu.step_behind bus hwait hopcode hindexed,
      f.perform_displaced ⟨fetched.regs, 8, false, bus⟩ hwait]
    rfl

end Substitution

end Cpu

/-- The pages behind DD and FD put an index register in the place of HL. On plain memory without
wait states, let the step begin with the prefix. An instruction of the page that names no byte at a
displacement does what the one of the main page does with HL and the index register exchanged
before and after, in four T-states more. One that names a byte at a displacement has the effect
that the one of the main page has on the byte at HL, in twelve T-states more, or nine if it stores
an immediate byte; H and L are themselves, and the index registers stay. -/
theorem index_page_substitutes (x : IndexReg) (cpu : Cpu) (bus : FlatBus)
    (hwait : bus.waitStates = 0) (hopcode : bus.ram.get cpu.regs.pc = x.opcode) :
    let base := cpu.pastOpcode
    let op := bus.ram.get base.regs.pc
    (((decode op).indexed x).isSome → op ∉ displacedOpcodes → op ≠ 0xCB →
      let t := (base.exchangeIndex x).step bus
      cpu.step bus =
        ⟨{ t.cpu.exchangeIndex x with ticks := t.cpu.ticks + 4 }, t.bus, t.tstates + 4⟩) ∧
    (op ∈ displacedOpcodes → ∃ f : ByteForm, decode op = f.instruction .hl ∧
      let t := base.step bus
      let fetched := base.pastOpcode
      let d := bus.ram.get fetched.regs.pc
      t = f.outcome fetched bus fetched.regs.hl.word d t.cpu.regs.pc t.tstates ∧
      cpu.step bus = f.outcome fetched bus (displace (cpu.regs.index x).word d)
        (bus.ram.get (fetched.regs.pc + 1)) (t.cpu.regs.pc + 1)
        (t.tstates + if op = 0x36 then 9 else 12) ∧
      ∀ y, (cpu.step bus).cpu.regs.index y = cpu.regs.index y) := by
  intro base op
  constructor
  · intro hsome hdisplaced hpage
    obtain ⟨i, hi⟩ := Option.isSome_iff_exists.mp hsome
    have hform : ByteForm.of? (decode op) = none := by
      simpa [mem_displacedOpcodes] using hdisplaced
    exact cpu.step_exchanged bus hwait hopcode hi hform fun h => hpage (eq_of_bitPage h)
  · intro hdisplaced
    obtain ⟨f, hf⟩ := Option.isSome_iff_exists.mp ((mem_displacedOpcodes op).mp hdisplaced)
    have hdecode := ByteForm.eq_of_of? hf
    have htime : (if op = 0x36 then 9 else 12) = 4 + f.delay := by
      have himmediate := storeImmediate_iff op
      rw [hf] at himmediate
      cases f <;> simp_all [ByteForm.delay]
    obtain ⟨hbase, hindexed⟩ := cpu.step_displaced bus hwait hopcode hdecode
    refine ⟨f, hdecode, ?_⟩
    intro t fetched d
    have hindex (y : IndexReg) : fetched.regs.index y = cpu.regs.index y := by cases y <;> rfl
    have hpc : t.cpu.regs.pc = f.next fetched.regs.pc := by
      have hstep : t = _ := hbase
      rw [hstep]
      exact f.pc_effect _ _ _ _
    have htstates : t.tstates = 4 + f.tstates := by
      have hstep : t = _ := hbase
      rw [hstep]
      rfl
    have htotal : 8 + (f.tstates + f.delay) = 4 + f.tstates + (4 + f.delay) := by omega
    refine ⟨?_, ?_, ?_⟩
    · rw [hpc, htstates]
      exact hbase
    · rw [hpc, htstates, htime, ← htotal, ← f.next_succ, ← hindex x]
      exact hindexed
    · intro y
      have hplain : (f.instruction .hl).plain := hdecode ▸ plain_decode op
      rw [hindexed]
      change Registers.index (f.effect _ _ _ _).1 y = _
      rw [f.index_effect _ _ _ _ hplain, Registers.index_pc]
      exact hindex y

/-- An increment of the high half of IX, and one of the byte before IY. -/
def increments : FlatBus := { ram := Ram.zero.load 0 [0xDD, 0x24, 0xFD, 0x34, 0xFF] }

theorem increments_substitute :
    (Cpu.step {} increments).cpu.regs.ix.hi =
        (((Cpu.pastOpcode {}).exchangeIndex .ix).step increments).cpu.regs.hl.hi ∧
      (Cpu.step { regs := { pc := 2 } } increments).tstates = 23 := by
  have hhalf := (index_page_substitutes .ix {} increments rfl (by decide +kernel)).1
    (by decide +kernel) (by decide +kernel) (by decide +kernel)
  obtain ⟨f, -, -, hbyte, -⟩ := (index_page_substitutes .iy { regs := { pc := 2 } } increments rfl
    (by decide +kernel)).2 (by decide +kernel)
  have hhalves (cpu : Cpu) : (cpu.exchangeIndex .ix).regs.ix = cpu.regs.hl := rfl
  have hbase : (Cpu.step (Cpu.pastOpcode { regs := { pc := 2 } }) increments).tstates = 11 := by
    decide +kernel
  have hopcode : increments.ram.get (Cpu.pastOpcode { regs := { pc := 2 } }).regs.pc ≠ 0x36 := by
    decide +kernel
  constructor
  · rw [hhalf]
    exact congrArg Pair.hi (hhalves _)
  · rw [hbyte, hbase, if_neg hopcode]
    exact Nat.add_zero 23

end Zx81.Z80
