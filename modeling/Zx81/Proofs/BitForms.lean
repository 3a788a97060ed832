import Zx81.Proofs.IndexSubstitution

namespace Zx81.Z80

namespace Registers

variable (r : Registers) (reg : Reg8) (v : UInt8)

theorem set8_frame (pc : UInt16) (refresh : UInt8) :
    ({ r with pc, refresh } : Registers).set8 reg v = { r.set8 reg v with pc, refresh } := by
  cases reg with
  | indexHigh x => cases x <;> rfl
  | indexLow x => cases x <;> rfl
  | _ => rfl

theorem set8_get8 : r.set8 reg (r.get8 reg) = r := by
  cases reg with
  | indexHigh x => cases x <;> rfl
  | indexLow x => cases x <;> rfl
  | _ => rfl

theorem get8_withFlags (f : Flags) : (r.withFlags f).get8 reg = r.get8 reg := by
  cases reg with
  | indexHigh x => cases x <;> rfl
  | indexLow x => cases x <;> rfl
  | _ => rfl

/-- The registers with a result copied to the register that an opcode names, if it names one. -/
def copied (opcode : UInt8) : Registers :=
  (Reg8.ofCode? (opcodeColumn opcode)).elim r fun reg => r.set8 reg v

theorem copied_frame (opcode : UInt8) (pc : UInt16) (refresh : UInt8) :
    ({ r with pc, refresh } : Registers).copied v opcode =
      { r.copied v opcode with pc, refresh } := by
  unfold copied
  cases Reg8.ofCode? (opcodeColumn opcode) with
  | none => rfl
  | some reg => exact r.set8_frame reg v pc refresh

end Registers

namespace BitOp

variable (op : BitOp) (v : UInt8) (f : Flags)

/-- The flags of an operation when bits 5 and 3 of a test come from another byte. -/
def flagsFrom (copied : UInt8) : Flags :=
  let flags := (op.apply v v f).flags
  if op.writes then flags else { flags with bit5 := testBit copied 5, bit3 := testBit copied 3 }

theorem apply_eq (copied : UInt8) :
    op.apply v copied f = ⟨(op.apply v v f).value, op.flagsFrom v f copied⟩ := by
  cases op <;> rfl

theorem value_of_not_writes (h : op.writes = false) : (op.apply v v f).value = v := by
  cases op with
  | test n => rfl
  | _ => cases h

end BitOp

namespace BitPage

/-- An operation of the bit page and the column of its operand lie at PC. -/
structure At (op : BitOp) (o : Operand) (cpu : Cpu) (bus : FlatBus) : Prop where
  page : bus.ram.get cpu.regs.pc = 0xCB
  operation : BitOp.decode (bus.ram.get (cpu.regs.pc + 1)) = op
  operand : Operand.ofCode (opcodeColumn (bus.ram.get (cpu.regs.pc + 1))) = o

/-- An operation of the bit page lies at PC behind the opcode of an index register and a
displacement. -/
structure AtIndexed (op : BitOp) (x : IndexReg) (cpu : Cpu) (bus : FlatBus) : Prop where
  index : bus.ram.get cpu.regs.pc = x.opcode
  page : bus.ram.get (cpu.regs.pc + 1) = 0xCB
  operation : BitOp.decode (bus.ram.get (cpu.regs.pc + 3)) = op

theorem copyTo_eq (opcode v : UInt8) (s : Core FlatBus) :
    (copyTo opcode v s).2 = { s with regs := s.regs.copied v opcode } := by
  unfold copyTo Registers.copied
  cases Reg8.ofCode? (opcodeColumn opcode) <;> rfl

/-- A test can be read as writing its operand back. -/
theorem onRegister_eq {σ : Type} (op : BitOp) (reg : Reg8) (s : Core σ) :
    let result := op.apply (s.regs.get8 reg) (s.regs.get8 reg) s.regs.flags
    (onRegister op reg s).2 =
      { s with regs := (s.regs.withFlags result.flags).set8 reg result.value } := by
  intro result
  cases op with
  | test n =>
    have hsame : (s.regs.withFlags result.flags).set8 reg result.value =
        s.regs.withFlags result.flags := by
      have hvalue : result.value = (s.regs.withFlags result.flags).get8 reg :=
        (s.regs.get8_withFlags reg result.flags).symm
      rw [hvalue, Registers.set8_get8]
    rw [hsame]
    rfl
  | _ => rfl

section Flat

variable (op : BitOp) (s : Core FlatBus) (hwait : s.bus.waitStates = 0)

include hwait

theorem onMemory_flat (address : UInt16) (copied : UInt8 → UInt8) :
    let v := s.bus.ram.get address
    let result := op.apply v (copied v) s.regs.flags
    onMemory op address copied s = (result.value,
      ⟨s.regs.withFlags result.flags, s.elapsed + if op.writes then 7 else 4, s.holdOff,
       if op.writes then { s.bus with ram := s.bus.ram.set address result.value } else s.bus⟩) := by
  obtain ⟨r, elapsed, holdOff, ram, ports, sent, waits⟩ := s
  obtain rfl : waits = 0 := hwait
  cases op <;> rfl

theorem thenCopy_flat (address : UInt16) (copied : UInt8 → UInt8) (opcode : UInt8) :
    let v := s.bus.ram.get address
    let result := op.apply v (copied v) s.regs.flags
    let regs := s.regs.withFlags result.flags
    ((do
        let value ← onMemory op address copied
        if op.writes then copyTo opcode value) s).2 =
      ⟨if op.writes then regs.copied result.value opcode else regs,
        s.elapsed + if op.writes then 7 else 4, s.holdOff,
        if op.writes then { s.bus with ram := s.bus.ram.set address result.value }
        else s.bus⟩ := by
  intro v result regs
  simp only [bind, StateT.bind, onMemory_flat op s hwait]
  cases op.writes with
  | true => exact copyTo_eq opcode result.value _
  | false => rfl

theorem performIndexed_flat (x : IndexReg)
    (hop : BitOp.decode (s.bus.ram.get (s.regs.pc + 1)) = op) :
    let address := displace (s.regs.index x).word (s.bus.ram.get s.regs.pc)
    let v := s.bus.ram.get address
    let value := (op.apply v v s.regs.flags).value
    let regs := { s.regs with pc := s.regs.pc + 1 + 1 }.withFlags
      (op.flagsFrom v s.regs.flags (Arithmetic.highByte address))
    (performIndexed x s).2 =
      ⟨if op.writes then regs.copied value (s.bus.ram.get (s.regs.pc + 1)) else regs,
        s.elapsed + if op.writes then 15 else 12, s.holdOff,
        if op.writes then { s.bus with ram := s.bus.ram.set address value } else s.bus⟩ := by
  intro address v value regs
  let read : Core FlatBus :=
    ⟨{ s.regs with pc := s.regs.pc + 1 + 1 }, s.elapsed + 8, s.holdOff, s.bus⟩
  have hread : performIndexed x s = (do
      let value ← onMemory (BitOp.decode (s.bus.ram.get (s.regs.pc + 1))) address
        fun _ => Arithmetic.highByte address
      if (BitOp.decode (s.bus.ram.get (s.regs.pc + 1))).writes then
        copyTo (s.bus.ram.get (s.regs.pc + 1)) value) read := by
    obtain ⟨r, elapsed, holdOff, ram, ports, sent, waits⟩ := s
    obtain rfl : waits = 0 := hwait
    cases x <;> rfl
  have htime : s.elapsed + (if op.writes then 15 else 12) =
      read.elapsed + if op.writes then 7 else 4 := by
    simp only [read]
    split <;> rfl
  rw [hread, hop, thenCopy_flat op read hwait, htime, op.apply_eq]
  rfl

end Flat

end BitPage

/-- What a step that fetches two opcodes leaves: registers, with PC and R moved on, and a bus. -/
structure Cpu.Leaves (cpu : Cpu) (regs : Registers) (bus : FlatBus) (n : UInt16) (t : Nat)
    (s : Stepped FlatBus) : Prop where
  state : s.cpu = ⟨{ regs with pc := cpu.regs.pc + n, refresh := s.cpu.regs.refresh }, false,
    cpu.ticks + t⟩
  refresh : s.cpu.regs.r.toNat % 128 = (cpu.regs.r.toNat + 2) % 128
  bus : s.bus = bus
  tstates : s.tstates = t

namespace Cpu

variable {cpu : Cpu} {bus : FlatBus} {op : BitOp}

theorem leaves_settle (regs : Registers) (bus' : FlatBus) (n : UInt16) (t : Nat) :
    cpu.Leaves regs bus' n t ((⟨{ regs with
      pc := cpu.regs.pc + n, refresh := cpu.pastOpcode.pastOpcode.regs.refresh }, t, false, bus'⟩ :
      Core FlatBus).settle cpu.ticks) := by
  refine ⟨rfl, ?_, rfl, rfl⟩
  have htwice : cpu.pastOpcode.pastOpcode.regs.refresh.toNat =
      ((cpu.regs.refresh.toNat + 1) % 128 + 1) % 128 := by
    change cpu.regs.advanceRefresh.advanceRefresh.refresh.toNat = _
    rw [Registers.toNat_refresh_advanceRefresh, Registers.toNat_refresh_advanceRefresh]
  have hbefore := cpu.regs.toNat_r
  rw [Registers.toNat_r]
  change cpu.pastOpcode.pastOpcode.regs.refresh.toNat % 128 = _
  omega

variable (hwait : bus.waitStates = 0)

include hwait

theorem step_bitPage {o : Operand} (hat : BitPage.At op o cpu bus) :
    cpu.step bus = (BitPage.onOperand op o
      ⟨cpu.pastOpcode.pastOpcode.regs, 8, false, bus⟩).2.settle cpu.ticks := by
  have hexecute : (decode 0xCB).execute = Z80.fetchOpcode >>= fun opcode =>
      BitPage.onOperand (σ := FlatBus) (BitOp.decode opcode)
        (Operand.ofCode (opcodeColumn opcode)) := rfl
  have hopcode : bus.ram.get cpu.pastOpcode.regs.pc = bus.ram.get (cpu.regs.pc + 1) := rfl
  rw [cpu.step_page bus hwait hexecute hat.page, hopcode, hat.operation, hat.operand]

theorem step_onRegister {reg : Reg8} (hat : BitPage.At op (.reg reg) cpu bus) :
    let result := op.apply (cpu.regs.get8 reg) (cpu.regs.get8 reg) cpu.regs.flags
    cpu.Leaves ((cpu.regs.withFlags result.flags).set8 reg result.value) bus 2 8
      (cpu.step bus) := by
  intro result
  rw [step_bitPage hwait hat, BitPage.onOperand, BitPage.onRegister_eq,
    regs_pastOpcode_pastOpcode]
  simp only [Registers.get8_frame]
  have hregs := (cpu.regs.withFlags result.flags).set8_frame reg result.value (cpu.regs.pc + 2)
    cpu.pastOpcode.pastOpcode.regs.refresh
  have hleaves :=
    cpu.leaves_settle ((cpu.regs.withFlags result.flags).set8 reg result.value) bus 2 8
  rw [← hregs] at hleaves
  exact hleaves

theorem step_onHl (hat : BitPage.At op (.mem .hl) cpu bus) :
    let hl := cpu.regs.hl.word
    let result := op.apply (bus.ram.get hl) (bus.ram.get hl) cpu.regs.flags
    cpu.Leaves (cpu.regs.withFlags result.flags)
      (if op.writes then { bus with ram := bus.ram.set hl result.value } else bus) 2
      (if op.writes then 15 else 12) (cpu.step bus) := by
  intro hl result
  have hoperand : (BitPage.onOperand op (.mem .hl)
      ⟨cpu.pastOpcode.pastOpcode.regs, 8, false, bus⟩).2 =
      (BitPage.onMemory op hl id ⟨cpu.pastOpcode.pastOpcode.regs, 8, false, bus⟩).2 := rfl
  have htime : (if op.writes then 15 else 12) = 8 + if op.writes then 7 else 4 := by
    split <;> rfl
  rw [step_bitPage hwait hat, hoperand, BitPage.onMemory_flat op _ hwait,
    regs_pastOpcode_pastOpcode, htime]
  exact cpu.leaves_settle (cpu.regs.withFlags result.flags) _ 2 _

theorem step_onDisplaced {x : IndexReg} (hat : BitPage.AtIndexed op x cpu bus) :
    let address := displace (cpu.regs.index x).word (bus.ram.get (cpu.regs.pc + 2))
    let v := bus.ram.get address
    let value := (op.apply v v cpu.regs.flags).value
    let regs := cpu.regs.withFlags
      (op.flagsFrom v cpu.regs.flags (Arithmetic.highByte address))
    cpu.Leaves
      (if op.writes then regs.copied value (bus.ram.get (cpu.regs.pc + 3)) else regs)
      (if op.writes then { bus with ram := bus.ram.set address value } else bus) 4
      (if op.writes then 23 else 20) (cpu.step bus) := by
  intro address v value regs
  have hpage : (decode (bus.ram.get cpu.pastOpcode.regs.pc)).indexed x =
      some (.indexedBitPage x) := by
    have hopcode : bus.ram.get cpu.pastOpcode.regs.pc = 0xCB := hat.page
    rw [hopcode]
    rfl
  have hopcode : cpu.regs.pc + 3 = cpu.regs.pc + 2 + 1 := by grind
  have hnext : cpu.regs.pc + 3 + 1 = cpu.regs.pc + 4 := by grind
  have hindex (pc : UInt16) (refresh : UInt8) :
      ({ cpu.regs with pc, refresh } : Registers).index x = cpu.regs.index x := by
    cases x <;> rfl
  have hoperation := hat.operation
  rw [hopcode] at hoperation
  have htime : (if op.writes then 23 else 20) = 8 + if op.writes then 15 else 12 := by
    split <;> rfl
  have hcopied := regs.copied_frame value (bus.ram.get (cpu.regs.pc + 3)) (cpu.regs.pc + 4)
    cpu.pastOpcode.pastOpcode.regs.refresh
  have hleaves := cpu.leaves_settle
    (if op.writes then regs.copied value (bus.ram.get (cpu.regs.pc + 3)) else regs)
    (if op.writes then { bus with ram := bus.ram.set address value } else bus) 4
    (8 + if op.writes then 15 else 12)
  rw [cpu.step_behind bus hwait hat.index hpage, Instruction.perform, regs_pastOpcode_pastOpcode,
    BitPage.performIndexed_flat op _ hwait x hoperation, htime]
  simp only [hindex, ← hopcode, hnext]
  cases hwrites : op.writes with
  | true =>
    simp only [hwrites, if_true, ← hcopied] at hleaves ⊢
    exact hleaves
  | false =>
    simp only [hwrites, Bool.false_eq_true, if_false] at hleaves ⊢
    exact hleaves

end Cpu

/-- An operation of the bit page has one result for an operand and flags: on a register that holds
the operand, on the byte at HL and on the byte at a displacement from an index register, which it
copies to the register that the opcode names. A test changes nothing but flags, of which bits 5 and
3 are those of its operand in the first two forms and of the address's high byte in the third. -/
theorem three_forms_agree (op : BitOp) (v : UInt8) (f : Flags) :
    let result := op.apply v v f
    (∀ (reg : Reg8) (cpu : Cpu) (bus : FlatBus), bus.waitStates = 0 →
      BitPage.At op (.reg reg) cpu bus → cpu.regs.get8 reg = v → cpu.regs.flags = f →
      cpu.Leaves ((cpu.regs.withFlags result.flags).set8 reg result.value) bus 2 8
        (cpu.step bus)) ∧
    (∀ (cpu : Cpu) (bus : FlatBus), bus.waitStates = 0 → BitPage.At op (.mem .hl) cpu bus →
      let hl := cpu.regs.hl.word
      bus.ram.get hl = v → cpu.regs.flags = f →
      cpu.Leaves (cpu.regs.withFlags result.flags)
        (if op.writes then { bus with ram := bus.ram.set hl result.value } else bus) 2
        (if op.writes then 15 else 12) (cpu.step bus)) ∧
    (∀ (x : IndexReg) (cpu : Cpu) (bus : FlatBus), bus.waitStates = 0 →
      BitPage.AtIndexed op x cpu bus →
      let address := displace (cpu.regs.index x).word (bus.ram.get (cpu.regs.pc + 2))
      let high := Arithmetic.highByte address
      let flags := if op.writes then result.flags
        else { result.flags with bit5 := testBit high 5, bit3 := testBit high 3 }
      let regs := cpu.regs.withFlags flags
      bus.ram.get address = v → cpu.regs.flags = f →
      cpu.Leaves
        (if op.writes then regs.copied result.value (bus.ram.get (cpu.regs.pc + 3)) else regs)
        (if op.writes then { bus with ram := bus.ram.set address result.value } else bus) 4
        (if op.writes then 23 else 20) (cpu.step bus)) ∧
    (op.writes = false →
      result.value = v ∧ result.flags.bit5 = testBit v 5 ∧ result.flags.bit3 = testBit v 3) := by
  intro result
  refine ⟨?_, ?_, ?_, ?_⟩
  · rintro reg cpu bus hwait hat rfl rfl
    exact Cpu.step_onRegister hwait hat
  · rintro cpu bus hwait hat hl rfl rfl
    exact Cpu.step_onHl hwait hat
  · rintro x cpu bus hwait hat address high flags regs rfl rfl
    exact Cpu.step_onDisplaced hwait hat
  · intro htest
    refine ⟨op.value_of_not_writes v f htest, ?_⟩
    cases op with
    | test n => exact ⟨rfl, rfl⟩
    | _ => cases htest

/-- The undocumented shift of a one into the accumulator, into the byte at HL, and into the byte
before IY with a copy to the accumulator. -/
def shiftsOfOne : FlatBus :=
  { ram := Ram.zero.load 0 [0xCB, 0x37, 0xCB, 0x36, 0xFD, 0xCB, 0xFF, 0x37, 0x81] }

theorem shiftsOfOne_agree :
    let regs : Registers := { af := ⟨0x81, 0⟩, hl := ⟨0, 8⟩, iy := ⟨0, 9⟩ }
    let viaA := Cpu.step { regs } shiftsOfOne
    let viaHl := Cpu.step { regs := { regs with pc := 2 } } shiftsOfOne
    let viaIy := Cpu.step { regs := { regs with pc := 4 } } shiftsOfOne
    (viaA.cpu.regs.a = 3 ∧ viaA.cpu.regs.pc = 2 ∧ viaA.tstates = 8) ∧
      (viaHl.bus.ram.get 8 = 3 ∧ viaHl.cpu.regs.a = 0x81 ∧ viaHl.tstates = 15) ∧
      viaIy.bus.ram.get 8 = 3 ∧ viaIy.cpu.regs.a = 3 ∧ viaIy.cpu.regs.pc = 8 ∧
      viaIy.tstates = 23 := by
  intro regs viaA viaHl viaIy
  obtain ⟨hregister, hhl, hindexed, -⟩ := three_forms_agree (.shift .leftOne) 0x81 {}
  have ha := hregister .a { regs } shiftsOfOne rfl
    ⟨by decide +kernel, by decide +kernel, by decide +kernel⟩ (by decide) (by decide)
  have hm := hhl { regs := { regs with pc := 2 } } shiftsOfOne rfl
    ⟨by decide +kernel, by decide +kernel, by decide +kernel⟩ (by decide +kernel) (by decide)
  have hi := hindexed .iy { regs := { regs with pc := 4 } } shiftsOfOne rfl
    ⟨by decide +kernel, by decide +kernel, by decide +kernel⟩ (by decide +kernel) (by decide)
  refine ⟨⟨?_, ?_, ha.tstates⟩, ⟨?_, ?_, hm.tstates⟩, ?_, ?_, ?_, hi.tstates⟩
  · exact (congrArg (fun cpu : Cpu => cpu.regs.a) ha.state).trans (by decide)
  · exact (congrArg (fun cpu : Cpu => cpu.regs.pc) ha.state).trans (by decide)
  · exact (congrArg (fun bus : FlatBus => bus.ram.get 8) hm.bus).trans (by decide +kernel)
  · exact (congrArg (fun cpu : Cpu => cpu.regs.a) hm.state).trans (by decide)
  · exact (congrArg (fun bus : FlatBus => bus.ram.get 8) hi.bus).trans (by decide +kernel)
  · exact (congrArg (fun cpu : Cpu => cpu.regs.a) hi.state).trans (by decide +kernel)
  · exact (congrArg (fun cpu : Cpu => cpu.regs.pc) hi.state).trans (by decide +kernel)

end Zx81.Z80
