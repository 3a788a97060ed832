import Zx81.Proofs.Halt

namespace Zx81

open Z80 (Pair)

namespace Ram

/-- The word at an address, low byte first. -/
def word (m : Ram) (a : UInt16) : UInt16 := (Pair.mk (m.get (a + 1)) (m.get a)).word

/-- Memory after a word has been pushed on the stack. -/
def pushed (m : Ram) (sp w : UInt16) : Ram :=
  (m.set (sp - 1) (Pair.ofWord w).hi).set (sp - 2) (Pair.ofWord w).lo

variable (m : Ram) (sp w : UInt16)

theorem get_pushed_of_ne {a : UInt16} (hhigh : a ≠ sp - 1) (hlow : a ≠ sp - 2) :
    (m.pushed sp w).get a = m.get a := by
  rw [pushed, get_set, if_neg hlow.symm, get_set, if_neg hhigh.symm]

/-- What has been pushed is on top of the stack, also where the stack goes round memory. -/
theorem word_pushed : (m.pushed sp w).word (sp - 2) = w := by
  have hnext : sp - 2 + 1 = sp - 1 := by grind
  have hother : sp - 2 ≠ sp - 1 := by grind
  have hhigh : (m.pushed sp w).get (sp - 1) = (Pair.ofWord w).hi := by
    rw [pushed, get_set, if_neg hother, get_set_self]
  have hlow : (m.pushed sp w).get (sp - 2) = (Pair.ofWord w).lo := by rw [pushed, get_set_self]
  rw [word, hnext, hhigh, hlow]
  exact Pair.word_ofWord w

/-- Bytes that a push does not write to are read as before. -/
theorem peek_pushed {a : UInt16} {n : Nat}
    (h : ∀ i < n, a + UInt16.ofNat i ≠ sp - 1 ∧ a + UInt16.ofNat i ≠ sp - 2) :
    (m.pushed sp w).peek a n = m.peek a n := by
  apply List.map_congr_left
  intro i hi
  obtain ⟨hhigh, hlow⟩ := h i (List.mem_range.1 hi)
  exact m.get_pushed_of_ne sp w hhigh hlow

end Ram

namespace Z80

/-- What takes control away from PC and leaves a way back: a call, with a condition or without, a
restart, or an interrupt of either kind. -/
inductive Linkage where
  | call
  | callIf (code : Fin 8)
  | restart (row : Fin 8)
  | interrupt
  | nmi (haltWait : Nat)

namespace Linkage

def request : Linkage → Request
  | interrupt => .interrupt
  | nmi haltWait => .nmi haltWait
  | _ => .step

/-- The linkage is made next: its opcode is at PC and its condition holds, or the interrupt is
accepted. -/
def Made (l : Linkage) (cpu : Cpu) (ram : Ram) : Prop :=
  match l with
  | call => ram.get cpu.regs.pc = 0xCD
  | callIf code => ram.get cpu.regs.pc = 0xC4 + 8 * UInt8.ofNat code ∧
    (Condition.ofCode code).holds cpu.regs.flags
  | restart row => ram.get cpu.regs.pc = 0xC7 + 8 * UInt8.ofNat row
  | interrupt => cpu.accepts
  | nmi _ => True

/-- The address to come back to: the one behind the call, or behind the halt that an interrupt has
ended, or the interrupted PC. -/
def back (l : Linkage) (r : Registers) : UInt16 :=
  match l with
  | call | callIf _ => r.pc + 3
  | restart _ => r.pc + 1
  | interrupt | nmi _ => if r.halted then r.pc + 1 else r.pc

/-- The address jumped to. The table of mode 2 is read when the return address has been pushed. -/
def target (l : Linkage) (r : Registers) (ram : Ram) : UInt16 :=
  match l with
  | call | callIf _ => ram.word (r.pc + 1)
  | restart row => UInt16.ofNat (8 * row.val)
  | interrupt =>
    if r.im = 2 then (ram.pushed r.sp (l.back r)).word (Pair.mk r.i 0xFF).word else 0x0038
  | nmi _ => 0x0066

/-- What becomes of the interrupt flags and of a halt. -/
def masked (l : Linkage) (r : Registers) : Registers :=
  match l with
  | interrupt => { r with iff1 := false, iff2 := false, halted := false }
  | nmi _ => { r with iff1 := false, halted := false }
  | _ => r

end Linkage

/-- Control is at an address, and the way back on the stack. -/
structure Linked (bus : FlatBus) (r : Registers) (target back : UInt16) (s : Stepped FlatBus) :
    Prop where
  regs : ∃ refresh, s.cpu.regs = { r with pc := target, sp := r.sp - 2, refresh }
  bus : s.bus = { bus with ram := bus.ram.pushed r.sp back }

section Plain

variable (s : Core FlatBus)

theorem push_flat (w : UInt16) : (push w s).2.regs = { s.regs with sp := s.regs.sp - 2 } ∧
    (push w s).2.bus = { s.bus with ram := s.bus.ram.pushed s.regs.sp w } :=
  push_eq haltsPlainly_flatBus w s

/-- A jump to the word popped off the stack. -/
theorem jumpTo_pop_flat (ticks : Nat) :
    let popped := (jumpTo (pop s).1 (pop s).2).2.settle ticks
    popped.cpu.regs =
        { s.regs with pc := s.bus.ram.word s.regs.sp, sp := s.regs.sp + 2 } ∧
      popped.bus = s.bus := by
  intro popped
  have hsp : s.regs.sp + 1 + 1 = s.regs.sp + 2 := by grind
  have hregs : popped.cpu.regs =
      { s.regs with pc := s.bus.ram.word s.regs.sp, sp := s.regs.sp + 1 + 1 } := rfl
  rw [hregs, hsp]
  exact ⟨rfl, rfl⟩

theorem callTo_flat (address : UInt16) :
    (callTo address s).2.regs = { s.regs with pc := address, sp := s.regs.sp - 2 } ∧
      (callTo address s).2.bus = { s.bus with ram := s.bus.ram.pushed s.regs.sp s.regs.pc } := by
  let spent := (internal (s.regs.pc - 1) 1 s).2
  have hrun : (callTo address s).2 = (jumpTo address (push s.regs.pc spent).2).2 := rfl
  obtain ⟨hregs, hbus⟩ := push_flat spent s.regs.pc
  rw [hrun]
  exact ⟨congrArg (fun r : Registers => { r with pc := address }) hregs, hbus⟩

/-- A call whose condition holds. -/
theorem perform_call {c : Option Condition} (hc : c.all (·.holds s.regs.flags)) :
    let called := (Instruction.perform (.call c) s).2
    called.regs = { s.regs with pc := s.bus.ram.word s.regs.pc, sp := s.regs.sp - 2 } ∧
      called.bus = { s.bus with ram := s.bus.ram.pushed s.regs.sp (s.regs.pc + 2) } := by
  intro called
  let fetched := (fetchWord s).2
  have hregs : fetched.regs = { s.regs with pc := s.regs.pc + 1 + 1 } := rfl
  have hbus : fetched.bus = s.bus := rfl
  have hpc : s.regs.pc + 1 + 1 = s.regs.pc + 2 := by grind
  have hrun : called = ((if c.all (·.holds s.regs.flags) then
      callTo (s.bus.ram.word s.regs.pc) else pure () : Exec FlatBus Unit) fetched).2 := rfl
  rw [if_pos hc] at hrun
  have hcall := callTo_flat fetched (s.bus.ram.word s.regs.pc)
  rw [hregs, hbus, hpc] at hcall
  rw [hrun]
  exact hcall

theorem perform_restart (row : Fin 8) :
    let called := (Instruction.perform (.restart row) s).2
    called.regs = { s.regs with pc := UInt16.ofNat (8 * row.val), sp := s.regs.sp - 2 } ∧
      called.bus = { s.bus with ram := s.bus.ram.pushed s.regs.sp s.regs.pc } := by
  obtain ⟨hregs, hbus⟩ := Cpu.pushed_eq haltsPlainly_flatBus id 1 s
  exact ⟨congrArg (fun r : Registers => { r with pc := UInt16.ofNat (8 * row.val) }) hregs, hbus⟩

end Plain

theorem decode_callIf (code : Fin 8) :
    decode (0xC4 + 8 * UInt8.ofNat code) = .call (some (.ofCode code)) := by
  revert code
  decide

theorem decode_restart (row : Fin 8) : decode (0xC7 + 8 * UInt8.ofNat row) = .restart row := by
  revert row
  decide

theorem decode_retn (code : Fin 8) :
    Extended.decode (0x45 + 8 * UInt8.ofNat code) = .returnInterrupt := by
  revert code
  decide

namespace Linkage

variable {cpu : Cpu} {bus : FlatBus}

/-- A call at PC. -/
theorem linked_call {c : Option Condition} (hop : decode (bus.ram.get cpu.regs.pc) = .call c)
    (hc : c.all (·.holds cpu.regs.flags)) :
    Linked bus cpu.regs (bus.ram.word (cpu.regs.pc + 1)) (cpu.regs.pc + 3) (cpu.step bus) := by
  let s : Core FlatBus := ⟨cpu.pastOpcode.regs, 4 + bus.waitStates, false, bus⟩
  obtain ⟨hregs, hbus⟩ := perform_call s hc
  have hpc : s.regs.pc + 2 = cpu.regs.pc + 3 := by
    change cpu.regs.pc + 1 + 2 = cpu.regs.pc + 3
    grind
  rw [hpc] at hbus
  rw [cpu.step_plain, hop]
  exact ⟨⟨_, hregs⟩, hbus⟩

/-- A restart at PC. -/
theorem linked_restart {row : Fin 8} (hop : decode (bus.ram.get cpu.regs.pc) = .restart row) :
    Linked bus cpu.regs (UInt16.ofNat (8 * row.val)) (cpu.regs.pc + 1) (cpu.step bus) := by
  let s : Core FlatBus := ⟨cpu.pastOpcode.regs, 4 + bus.waitStates, false, bus⟩
  obtain ⟨hregs, hbus⟩ := perform_restart s row
  rw [cpu.step_plain, hop]
  exact ⟨⟨_, hregs⟩, hbus⟩

theorem linked (l : Linkage) (hmade : l.Made cpu bus.ram) :
    Linked bus (l.masked cpu.regs) (l.target cpu.regs bus.ram) (l.back cpu.regs)
      (l.request.run cpu bus) := by
  cases l with
  | call =>
    have hop : decode (bus.ram.get cpu.regs.pc) = .call none := by
      rw [show bus.ram.get cpu.regs.pc = 0xCD from hmade]
      decide
    exact linked_call hop rfl
  | callIf code =>
    have hop : decode (bus.ram.get cpu.regs.pc) = .call (some (.ofCode code)) := by
      rw [hmade.1, decode_callIf]
    exact linked_call hop hmade.2
  | restart row =>
    have hop : decode (bus.ram.get cpu.regs.pc) = .restart row := by
      rw [show bus.ram.get cpu.regs.pc = _ from hmade, decode_restart]
    exact linked_restart hop
  | interrupt =>
    obtain ⟨hregs, hbus⟩ := Cpu.interrupt_eq cpu bus haltsPlainly_flatBus hmade
    rw [wake_eq] at hregs hbus
    exact ⟨⟨_, hregs⟩, hbus⟩
  | nmi haltWait =>
    obtain ⟨hregs, hbus⟩ := Cpu.nmi_eq cpu bus haltsPlainly_flatBus haltWait
    rw [wake_eq] at hregs hbus
    exact ⟨⟨_, hregs⟩, hbus⟩

end Linkage

/-- The way back: `RET`, or the return from a non-maskable interrupt in any of its codes, which sets
the interrupts as they were. -/
inductive Return where
  | ret
  | retn (code : Fin 8)

namespace Return

def bytes : Return → List UInt8
  | ret => [0xC9]
  | retn code => [0xED, 0x45 + 8 * UInt8.ofNat code]

def unmasked (way : Return) (r : Registers) : Registers :=
  match way with
  | ret => r
  | retn _ => { r with iff1 := r.iff2 }

/-- A return at PC: control is at the address on top of the stack. -/
theorem step_return (way : Return) (cpu : Cpu) (bus : FlatBus)
    (hat : bus.ram.peek cpu.regs.pc way.bytes.length = way.bytes) :
    let s := cpu.step bus
    (∃ refresh, s.cpu.regs = { way.unmasked cpu.regs with
      pc := bus.ram.word cpu.regs.sp, sp := cpu.regs.sp + 2, refresh }) ∧ s.bus = bus := by
  intro s
  cases way with
  | ret =>
    let opened : Core FlatBus := ⟨cpu.pastOpcode.regs, 4 + bus.waitStates, false, bus⟩
    have hop : bus.ram.get cpu.regs.pc = 0xC9 := by
      simpa [bytes] using Ram.get_of_peek hat (i := 0) (by decide)
    have hdecode : decode 0xC9 = .ret none := by decide
    have hrun : s = (jumpTo (pop opened).1 (pop opened).2).2.settle cpu.ticks := by
      simp only [s, cpu.step_plain, hop, hdecode]
      rfl
    obtain ⟨hregs, hbus⟩ := jumpTo_pop_flat opened cpu.ticks
    rw [hrun]
    exact ⟨⟨_, hregs⟩, hbus⟩
  | retn code =>
    let opened : Core FlatBus := ⟨{ cpu.pastOpcode.pastOpcode.regs with
      iff1 := cpu.pastOpcode.pastOpcode.regs.iff2 }, 4 + bus.waitStates + (4 + bus.waitStates),
      false, bus⟩
    have hopened : opened.regs = { cpu.regs with
        iff1 := cpu.regs.iff2, pc := cpu.regs.pc + 2,
        refresh := cpu.pastOpcode.pastOpcode.regs.refresh } :=
      congrArg (fun r : Registers => { r with iff1 := r.iff2 }) cpu.regs_pastOpcode_pastOpcode
    have hpage : bus.ram.get cpu.regs.pc = 0xED := by
      simpa [bytes] using Ram.get_of_peek hat (i := 0) (by simp [bytes])
    have hnext : bus.ram.get (cpu.regs.pc + 1) = 0x45 + 8 * UInt8.ofNat code := by
      simpa [bytes] using Ram.get_of_peek hat (i := 1) (by simp [bytes])
    have hop : bus.ram.get cpu.pastOpcode.regs.pc = 0x45 + 8 * UInt8.ofNat code := hnext
    have hdecode : decode 0xED = .extendedPage := by decide
    have hfetch := cpu.pastOpcode.fetchOpcode_plain bus (4 + bus.waitStates) false
    have hrun : s = (jumpTo (pop opened).1 (pop opened).2).2.settle cpu.ticks := by
      simp only [s, cpu.step_plain, hpage, hdecode]
      simp only [Instruction.execute, Instruction.perform, bind, StateT.bind, hfetch, hop,
        decode_retn]
      rfl
    obtain ⟨hregs, hbus⟩ := jumpTo_pop_flat opened cpu.ticks
    rw [hopened] at hregs
    rw [hrun]
    exact ⟨⟨_, hregs⟩, hbus⟩

end Return

/-- A linkage and the return right behind it: control is back, SP is restored, and nothing else has
changed but R, the interrupt flags, the halt and the two bytes of the stack. -/
theorem linkage_round_trips (l : Linkage) (way : Return) (cpu : Cpu) (bus : FlatBus)
    (hmade : l.Made cpu bus.ram)
    (hstored : bus.ram.peek (l.target cpu.regs bus.ram) way.bytes.length = way.bytes)
    (hclear : ∀ i < way.bytes.length,
      l.target cpu.regs bus.ram + UInt16.ofNat i ≠ cpu.regs.sp - 1 ∧
        l.target cpu.regs bus.ram + UInt16.ofNat i ≠ cpu.regs.sp - 2) :
    let r := cpu.regs
    let entered := l.request.run cpu bus
    let s := entered.cpu.step entered.bus
    entered.cpu.regs.pc = l.target r bus.ram ∧
    s.cpu.regs = { r with
      pc := l.back r, refresh := s.cpu.regs.refresh, iff1 := s.cpu.regs.iff1,
      iff2 := s.cpu.regs.iff2, halted := s.cpu.regs.halted } ∧
    s.bus = { bus with ram := s.bus.ram } ∧
    (∀ a, a ≠ r.sp - 1 → a ≠ r.sp - 2 → s.bus.ram.get a = bus.ram.get a) ∧
    (∀ haltWait code, l = .nmi haltWait → way = .retn code → r.iff1 = r.iff2 →
      s.cpu.regs.iff1 = r.iff1) := by
  intro r entered s
  obtain ⟨⟨refresh, hregs⟩, hbus⟩ :
      Linked bus (l.masked r) (l.target r bus.ram) (l.back r) entered := l.linked hmade
  have hsp : (l.masked r).sp = r.sp := by cases l <;> rfl
  rw [hsp] at hregs hbus
  have hpc : entered.cpu.regs.pc = l.target r bus.ram := by rw [hregs]
  have hstack : entered.cpu.regs.sp = r.sp - 2 := by rw [hregs]
  have hat : entered.bus.ram.peek entered.cpu.regs.pc way.bytes.length = way.bytes := by
    rw [hpc, hbus, bus.ram.peek_pushed r.sp (l.back r) hclear, hstored]
  obtain ⟨⟨refresh', hregs'⟩, hbus'⟩ := way.step_return entered.cpu entered.bus hat
  have hback : entered.bus.ram.word entered.cpu.regs.sp = l.back r := by
    rw [hstack, hbus, bus.ram.word_pushed r.sp (l.back r)]
  have hrestored : entered.cpu.regs.sp + 2 = r.sp := by
    rw [hstack]
    grind
  rw [hback, hrestored, hregs] at hregs'
  have hleft : s.bus = { bus with ram := bus.ram.pushed r.sp (l.back r) } := hbus'.trans hbus
  refine ⟨hpc, ?regs, ?bus, ?memory, ?unmasked⟩
  case regs =>
    rw [show s.cpu.regs = _ from hregs']
    cases l <;> cases way <;> rfl
  case bus => rw [hleft]
  case memory =>
    intro a hhigh hlow
    rw [hleft]
    exact bus.ram.get_pushed_of_ne r.sp (l.back r) hhigh hlow
  case unmasked =>
    rintro haltWait code rfl rfl hsame
    rw [show s.cpu.regs = _ from hregs']
    exact hsame.symm

/-- A halt at 80, and the return from a non-maskable interrupt at its routine. -/
def idling : FlatBus := { ram := (Ram.zero.load 0x0080 [0x76]).load 0x0066 [0xED, 0x45] }

/-- A non-maskable interrupt ends the halt. Its two stack bytes are the first of memory and the
last. -/
theorem idling_round_trips :
    let cpu : Cpu :=
      { regs := { pc := 0x0080, sp := 1, iff1 := true, iff2 := true, halted := true } }
    let entered := cpu.nmi idling 8
    let s := entered.cpu.step entered.bus
    entered.cpu.regs.pc = 0x0066 ∧ s.cpu.regs.pc = 0x0081 ∧ s.cpu.regs.sp = 1 ∧
      s.cpu.regs.iff1 = true ∧ s.bus.ram.get 0x0080 = 0x76 := by
  intro cpu entered s
  obtain ⟨hentry, hregs, -, hram, hunmasked⟩ :=
    linkage_round_trips (.nmi 8) (.retn 0) cpu idling trivial (by decide +kernel)
      (by decide +kernel)
  have hregs : s.cpu.regs = _ := hregs
  refine ⟨hentry, ?_, ?_, hunmasked 8 0 rfl rfl rfl, ?_⟩
  · rw [hregs]
    rfl
  · rw [hregs]
  · exact (hram 0x0080 (by decide) (by decide)).trans (by decide +kernel)

end Z80
end Zx81
