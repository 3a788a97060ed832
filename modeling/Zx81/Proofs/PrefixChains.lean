import Zx81.Proofs.IndexSubstitution

namespace Zx81.Z80

/-- Two steps, or runs of steps, leave the same; their T-states are not compared. -/
structure Stepped.SameEffect {σ : Type} (s t : Stepped σ) : Prop where
  regs : s.cpu.regs = t.cpu.regs
  holdOff : s.cpu.holdOff = t.cpu.holdOff
  bus : s.bus = t.bus

namespace Registers

theorem retreatRefresh_advanceRefresh (r : Registers) :
    r.advanceRefresh.advanceRefresh.retreatRefresh = r.advanceRefresh := by
  have hcount :
      (((r.refresh + 1 &&& 0x7F) + 1 &&& 0x7F) - 1) &&& 0x7F = r.refresh + 1 &&& 0x7F := by
    apply UInt8.toNat_inj.1
    simp only [toNat_and_low, UInt8.toNat_add, UInt8.toNat_sub, UInt8.toNat_one]
    omega
  exact congrArg (fun refresh => { r with refresh }) hcount

end Registers

namespace Cpu

/-- PC advanced by a number of opcodes, and R as often by one. -/
def pastOpcodes (cpu : Cpu) (n : Nat) : Cpu :=
  { cpu with regs :=
    { Registers.advanceRefresh^[n] cpu.regs with pc := cpu.regs.pc + UInt16.ofNat n } }

theorem pastOpcodes_succ (cpu : Cpu) (n : Nat) :
    cpu.pastOpcodes (n + 1) = (cpu.pastOpcodes n).pastOpcode := by
  simp only [pastOpcodes, Function.iterate_succ_apply', UInt16.ofNat_add, ← UInt16.add_assoc]
  rfl

/-- R counts in its low seven bits and keeps bit 7. -/
theorem r_pastOpcodes (cpu : Cpu) (n : Nat) :
    (cpu.pastOpcodes n).regs.r.toNat % 128 = (cpu.regs.r.toNat + n) % 128 ∧
      testBit (cpu.pastOpcodes n).regs.r 7 = testBit cpu.regs.r 7 := by
  induction n with
  | zero => exact ⟨rfl, rfl⟩
  | succ n ih =>
    obtain ⟨hlow, htop⟩ := ih
    rw [pastOpcodes_succ]
    constructor
    · have hnext : (cpu.pastOpcodes n).pastOpcode.regs.refresh.toNat =
          ((cpu.pastOpcodes n).regs.refresh.toNat + 1) % 128 :=
        Registers.toNat_refresh_advanceRefresh _
      rw [Registers.toNat_r] at hlow ⊢
      omega
    · rw [← htop, Registers.testBit_r, Registers.testBit_r]
      rfl

/-- A prefix at PC is dropped: the opcode behind it does not name HL. -/
def Drops (ram : Ram) (pc : UInt16) : Prop :=
  ∃ x : IndexReg, ram.get pc = x.opcode ∧ (decode (ram.get (pc + 1))).indexed x = none

/-- What a step does is told by the registers: neither the T-states counted before it nor
interrupts held off until then matter. -/
theorem step_of_regs {σ : Type} [Bus σ] {cpu cpu' : Cpu} (h : cpu.regs = cpu'.regs) (bus : σ) :
    (cpu.step bus).SameEffect (cpu'.step bus) ∧
      (cpu.step bus).tstates = (cpu'.step bus).tstates := by
  obtain ⟨regs, holdOff, ticks⟩ := cpu
  obtain ⟨_, holdOff', ticks'⟩ := cpu'
  obtain rfl : regs = _ := h
  exact ⟨⟨rfl, rfl, rfl⟩, rfl⟩

section Dropped

variable (cpu : Cpu) (bus : FlatBus)

theorem pastOpcode_takenBack :
    { cpu.pastOpcode.pastOpcode.regs.retreatRefresh with
      pc := cpu.pastOpcode.pastOpcode.regs.pc - 1 } = cpu.pastOpcode.regs := by
  have hrefresh := cpu.regs.retreatRefresh_advanceRefresh
  have hpc : cpu.regs.pc + 1 + 1 - 1 = cpu.regs.pc + 1 := UInt16.add_sub_cancel _ _
  exact congrArg₂ (fun r pc => { r with pc := pc }) hrefresh hpc

theorem step_dropped (h : Drops bus.ram cpu.regs.pc) :
    cpu.step bus = (Core.mk cpu.pastOpcode.regs (2 * (4 + bus.waitStates)) false bus).settle
      cpu.ticks := by
  obtain ⟨x, hprefix, hnone⟩ := h
  have hfirst := cpu.fetchOpcode_plain bus 0 false
  have hsecond := cpu.pastOpcode.fetchOpcode_plain bus (4 + bus.waitStates) false
  have hnone : (decode (bus.ram.get cpu.pastOpcode.regs.pc)).indexed x = none := hnone
  rw [Nat.zero_add] at hfirst
  rw [step, run_eq_settle]
  simp only [bind, StateT.bind, hfirst, hprefix, decode_opcode, Instruction.execute, hsecond, hnone,
    update, pastOpcode_takenBack, Nat.two_mul]

theorem steps_dropped (n : Nat) (h : ∀ i < n, Drops bus.ram (cpu.regs.pc + UInt16.ofNat i)) :
    let s := cpu.steps bus n
    s.cpu.regs = (cpu.pastOpcodes n).regs ∧ s.bus = bus ∧
      s.tstates = n * (2 * (4 + bus.waitStates)) := by
  induction n with
  | zero => simp [pastOpcodes]
  | succ n ih =>
    obtain ⟨hregs, hbus, htime⟩ := ih fun i hi => h i (Nat.lt_succ_of_lt hi)
    have hdrop : Drops bus.ram (cpu.steps bus n).cpu.regs.pc := by
      rw [hregs]
      exact h n (Nat.lt_succ_self n)
    have hstep := (cpu.steps bus n).cpu.step_dropped bus hdrop
    rw [steps_succ, Stepped.next, hbus, hstep, pastOpcodes_succ]
    simp only [Core.settle, htime, Nat.succ_mul, and_true]
    simp only [pastOpcode, hregs]

theorem step_past_dropped (n : Nat) (h : ∀ i < n, Drops bus.ram (cpu.regs.pc + UInt16.ofNat i)) :
    let s := cpu.steps bus (n + 1)
    let t := (cpu.pastOpcodes n).step bus
    s.SameEffect t ∧ s.tstates = n * (2 * (4 + bus.waitStates)) + t.tstates := by
  obtain ⟨hregs, hbus, htime⟩ := cpu.steps_dropped bus n h
  obtain ⟨heffect, hlast⟩ := step_of_regs hregs bus
  intro s t
  have hs : s = (cpu.steps bus n).next := cpu.steps_succ bus n
  rw [hs, Stepped.next, hbus]
  refine ⟨⟨heffect.regs, heffect.holdOff, heffect.bus⟩, ?_⟩
  rw [htime, hlast]

section Chain

variable {cpu bus} {earlier : List IndexReg} {x : IndexReg}
  (hchain : bus.ram.peek cpu.regs.pc (earlier.length + 1) =
    (earlier ++ [x]).map IndexReg.opcode)

include hchain

theorem get_chain {i : Nat} (hi : i < (earlier ++ [x]).length) :
    bus.ram.get (cpu.regs.pc + UInt16.ofNat i) = (earlier ++ [x])[i].opcode := by
  rw [Ram.get_of_peek hchain (by rwa [List.length_map]), List.getElem_map]

/-- Every prefix but the last is followed by another, and so dropped. -/
theorem drops_earlier : ∀ i < earlier.length, Drops bus.ram (cpu.regs.pc + UInt16.ofNat i) := by
  intro i hi
  have hthis : i < (earlier ++ [x]).length := by simp; omega
  have hnext : i + 1 < (earlier ++ [x]).length := by simp; omega
  have hbehind : cpu.regs.pc + UInt16.ofNat i + 1 = cpu.regs.pc + UInt16.ofNat (i + 1) := by
    rw [UInt16.ofNat_add, ← UInt16.add_assoc]
    rfl
  refine ⟨(earlier ++ [x])[i], get_chain hchain hthis, ?_⟩
  rw [hbehind, get_chain hchain hnext, decode_opcode]
  rfl

/-- The last prefix is dropped too if the opcode behind it does not name HL. -/
theorem drops_chain
    (hop : (decode (bus.ram.get (cpu.regs.pc + UInt16.ofNat (earlier.length + 1)))).indexed x =
      none) :
    ∀ i < earlier.length + 1, Drops bus.ram (cpu.regs.pc + UInt16.ofNat i) := by
  intro i hi
  obtain hearlier | rfl := Nat.lt_succ_iff_lt_or_eq.1 hi
  · exact drops_earlier hchain i hearlier
  · refine ⟨x, ?_, ?_⟩
    · rw [get_chain hchain (by simp)]
      simp
    · rw [UInt16.ofNat_add, ← UInt16.add_assoc] at hop
      exact hop

end Chain

end Dropped

end Cpu

/-- Of a chain of prefixes the last alone counts. On plain memory let `earlier` and `x` be the
prefixes at PC, `k` in all, and `op` the opcode behind them. If `op` is on the index page, `k`
steps leave what the instruction with the one prefix `x` leaves, run with PC and R advanced by
`k - 1`; otherwise `k + 1` steps leave what `op` leaves without a prefix, run with PC and R advanced
by `k`. -/
theorem last_prefix_counts (earlier : List IndexReg) (x : IndexReg) (cpu : Cpu) (bus : FlatBus)
    (hchain : bus.ram.peek cpu.regs.pc (earlier.length + 1) =
      (earlier ++ [x]).map IndexReg.opcode) :
    let k := earlier.length + 1
    let op := bus.ram.get (cpu.regs.pc + UInt16.ofNat k)
    (((decode op).indexed x).isSome →
        (cpu.steps bus k).SameEffect ((cpu.pastOpcodes (k - 1)).step bus)) ∧
      ((decode op).indexed x = none →
        (cpu.steps bus (k + 1)).SameEffect ((cpu.pastOpcodes k).step bus)) := by
  intro k op
  constructor
  · intro _
    exact (cpu.step_past_dropped bus earlier.length (Cpu.drops_earlier hchain)).1
  · intro hop
    exact (cpu.step_past_dropped bus k (Cpu.drops_chain hchain hop)).1

/-- IY loaded behind two prefixes, and then the accumulator behind two. -/
def doublyPrefixed : FlatBus :=
  { ram := Ram.zero.load 0 [0xDD, 0xFD, 0x21, 0x34, 0x12, 0xFD, 0xDD, 0x3E, 0x42] }

theorem doublyPrefixed_loads :
    (Cpu.steps {} doublyPrefixed 2).cpu.regs.iy.word = 0x1234 ∧
      (Cpu.steps {} doublyPrefixed 2).cpu.regs.ix.word = 0 ∧
      (Cpu.steps { regs := { pc := 5 } } doublyPrefixed 3).cpu.regs.a = 0x42 := by
  have hword := (last_prefix_counts [.ix] .iy {} doublyPrefixed (by decide +kernel)).1
    (by decide +kernel)
  have hbyte := (last_prefix_counts [.iy] .ix { regs := { pc := 5 } } doublyPrefixed
    (by decide +kernel)).2 (by decide +kernel)
  have hword : (Cpu.steps {} doublyPrefixed 2).cpu.regs = _ := hword.regs
  have hbyte : (Cpu.steps { regs := { pc := 5 } } doublyPrefixed 3).cpu.regs = _ := hbyte.regs
  rw [hword, hbyte]
  decide +kernel

/-- Without wait states each prefix that is dropped takes eight T-states, those of the fetch that is
taken back among them. -/
theorem dropped_prefixes_take_eight (earlier : List IndexReg) (x : IndexReg) (cpu : Cpu)
    (bus : FlatBus) (hwait : bus.waitStates = 0)
    (hchain : bus.ram.peek cpu.regs.pc (earlier.length + 1) =
      (earlier ++ [x]).map IndexReg.opcode)
    (hop : (decode (bus.ram.get (cpu.regs.pc + UInt16.ofNat (earlier.length + 1)))).indexed x =
      none) :
    let k := earlier.length + 1
    (cpu.steps bus (k + 1)).tstates = 8 * k + ((cpu.pastOpcodes k).step bus).tstates := by
  intro k
  have htime := (cpu.step_past_dropped bus k (Cpu.drops_chain hchain hop)).2
  rw [htime, hwait]
  omega

theorem doublyPrefixed_takes :
    (Cpu.steps { regs := { pc := 5 } } doublyPrefixed 3).tstates = 23 := by
  have htime : (Cpu.steps { regs := { pc := 5 } } doublyPrefixed 3).tstates =
      8 * 2 + ((Cpu.pastOpcodes { regs := { pc := 5 } } 2).step doublyPrefixed).tstates :=
    dropped_prefixes_take_eight [.iy] .ix { regs := { pc := 5 } } doublyPrefixed rfl
      (by decide +kernel) (by decide +kernel)
  rw [htime]
  decide +kernel

def prefixedNop : FlatBus := { ram := Ram.zero.load 0 [0xDD, 0x00] }

/-- A dropped prefix takes more than the four T-states of its own fetch. -/
theorem prefixedNop_takes_more :
    prefixedNop.waitStates = 0 ∧ prefixedNop.ram.peek 0 1 = [IndexReg.ix.opcode] ∧
      (decode (prefixedNop.ram.get 1)).indexed .ix = none ∧
      (Cpu.steps {} prefixedNop 2).tstates ≠
        4 * 1 + ((Cpu.pastOpcodes {} 1).step prefixedNop).tstates := by
  decide +kernel

end Zx81.Z80
