import Zx81.Proofs.FlatStep

namespace Zx81.Z80

theorem sub_ofNat_succ (w : UInt16) (n : Nat) :
    w - UInt16.ofNat n - 1 = w - UInt16.ofNat (n + 1) := by
  simp only [UInt16.ofNat_add, UInt16.reduceOfNat]
  grind

namespace Direction

def along (dir : Direction) (n : Nat) (w : UInt16) : UInt16 :=
  match dir with
  | forward => w + UInt16.ofNat n
  | backward => w - UInt16.ofNat n

@[simp] theorem along_zero (dir : Direction) (w : UInt16) : dir.along 0 w = w := by
  cases dir <;> simp [along]

@[simp] theorem move_along (dir : Direction) (n : Nat) (w : UInt16) :
    dir.move (dir.along n w) = dir.along (n + 1) w := by
  cases dir with
  | forward => simp only [move, along, UInt16.ofNat_add, UInt16.add_assoc]; rfl
  | backward => exact sub_ofNat_succ w n

end Direction

/-- The number of elements that a word counts: zero stands for a full turn. -/
def wordCount (w : UInt16) : Nat := if w = 0 then 65536 else w.toNat

theorem wordCount_eq (w : UInt16) : wordCount w = if w.toNat = 0 then 65536 else w.toNat := by
  simp only [wordCount, ← UInt16.toNat_inj, UInt16.toNat_zero]

theorem wordCount_pos (w : UInt16) : 0 < wordCount w := by
  rw [wordCount_eq]
  split <;> omega

/-- A counter of `m` values that is counted down comes to zero after the number of elements that it
counts. -/
theorem countdown_eq_zero_iff {m k i : Nat} (hk : k < m) (hpos : 0 < i)
    (hle : i ≤ if k = 0 then m else k) :
    (m - i % m + k) % m = 0 ↔ i = if k = 0 then m else k := by
  by_cases hzero : k = 0
  · rw [if_pos hzero] at hle ⊢
    by_cases hlast : i = m
    · simp [hlast, hzero]
    · have hmore : i < m := by omega
      have hleft : m - i < m := by omega
      rw [hzero, Nat.add_zero, Nat.mod_eq_of_lt hmore, Nat.mod_eq_of_lt hleft]
      omega
  · rw [if_neg hzero] at hle ⊢
    have hsum : m - i + k = k - i + m := by omega
    have hleft : k - i < m := by omega
    rw [Nat.mod_eq_of_lt (Nat.lt_of_le_of_lt hle hk), hsum, Nat.add_mod_right,
      Nat.mod_eq_of_lt hleft]
    omega

theorem sub_eq_zero_iff {w : UInt16} {i : Nat} (hpos : 0 < i) (hle : i ≤ wordCount w) :
    w - UInt16.ofNat i = 0 ↔ i = wordCount w := by
  have hw : w.toNat < 65536 := w.toNat_lt
  rw [wordCount_eq] at hle ⊢
  rw [← UInt16.toNat_inj, UInt16.toNat_sub, UInt16.toNat_ofNat']
  exact countdown_eq_zero_iff hw hpos hle

namespace Block

def opcode (op : BlockOp) (dir : Direction) : UInt8 :=
  match op, dir with
  | .transfer, .forward => 0xB0
  | .compare, .forward => 0xB1
  | .input, .forward => 0xB2
  | .output, .forward => 0xB3
  | .transfer, .backward => 0xB8
  | .compare, .backward => 0xB9
  | .input, .backward => 0xBA
  | .output, .backward => 0xBB

theorem decode_opcode (op : BlockOp) (dir : Direction) :
    Extended.decode (opcode op dir) = .block op dir true := by
  cases op <;> cases dir <;> decide

/-- A repeating block instruction lies at an address. -/
structure At (op : BlockOp) (dir : Direction) (ram : Ram) (pc : UInt16) : Prop where
  page : ram.get pc = 0xED
  opcode : ram.get (pc + 1) = opcode op dir

/-- What one element of a block instruction does to registers and bus, PC and R apart. -/
def effect (op : BlockOp) (dir : Direction) (r : Registers) (bus : FlatBus) :
    Registers × FlatBus :=
  let source := bus.ram.get r.hl.word
  let hl := Pair.ofWord (dir.move r.hl.word)
  match op with
  | .transfer =>
    let bc := r.bc.word - 1
    ({ r with bc := .ofWord bc, hl, de := .ofWord (dir.move r.de.word) }.withFlags
        (transferFlags r.flags r.a source (bc != 0)),
      { bus with ram := bus.ram.set r.de.word source })
  | .compare =>
    let bc := r.bc.word - 1
    ({ r with bc := .ofWord bc, hl }.withFlags (compareFlags r.flags r.a source (bc != 0)), bus)
  | .input =>
    let value := bus.portValue r.bc.word
    let b := r.bc.hi - 1
    ({ r with bc := { r.bc with hi := b }, hl }.withFlags
        (portFlags b value (value + dir.moveByte r.bc.lo)),
      { bus with ram := bus.ram.set r.hl.word value })
  | .output =>
    let bc := { r.bc with hi := r.bc.hi - 1 }
    ({ r with bc, hl }.withFlags (portFlags bc.hi source (source + hl.lo)),
      { bus with sent := bus.sent.push (bc.word, source) })

/-- Whether the loop of a repeating form goes on, told from the registers after an element. -/
def goesOn (op : BlockOp) (r : Registers) : Bool :=
  match op with
  | .transfer => r.bc.word != 0
  | .compare => r.bc.word != 0 && !r.flags.zero
  | .input | .output => r.bc.hi != 0

theorem goesOn_transfer (dir : Direction) (r : Registers) (bus : FlatBus) :
    goesOn .transfer (effect .transfer dir r bus).1 = (r.bc.word - 1 != 0) := by
  simp [goesOn, effect, Registers.withFlags]

/-- A comparison sets the zero flag exactly if the byte is the accumulator. -/
theorem zero_compareFlags (f : Flags) (a v : UInt8) (more : Bool) :
    (compareFlags f a v more).zero = (a == v) := by
  change (a - v == 0) = (a == v)
  rw [Bool.eq_iff_iff, beq_iff_eq, beq_iff_eq]
  grind

theorem goesOn_compare (dir : Direction) (r : Registers) (bus : FlatBus) :
    goesOn .compare (effect .compare dir r bus).1 =
      (r.bc.word - 1 != 0 && r.a != bus.ram.get r.hl.word) := by
  simp only [goesOn, effect, Registers.flags_withFlags, zero_compareFlags]
  simp [Registers.withFlags, bne]

theorem ending_flat (more : Bool) (address : UInt16) (s : Core FlatBus)
    (hwait : s.bus.waitStates = 0) :
    ((if more then again address else pure () : Exec FlatBus Unit) s).2 =
      if more then ⟨{ s.regs with pc := s.regs.pc - 2 }, s.elapsed + 5, s.holdOff, s.bus⟩
      else s := by
  obtain ⟨r, elapsed, holdOff, ram, ports, sent, waits⟩ := s
  obtain rfl : waits = 0 := hwait
  cases more <;> rfl

theorem perform_flat (op : BlockOp) (dir : Direction) (repeated : Bool) (s : Core FlatBus)
    (hwait : s.bus.waitStates = 0) :
    let e := effect op dir s.regs s.bus
    (perform op dir repeated s).2 =
      if repeated && goesOn op e.1 then
        ⟨{ e.1 with pc := e.1.pc - 2 }, s.elapsed + 13, s.holdOff, e.2⟩
      else ⟨e.1, s.elapsed + 8, s.holdOff, e.2⟩ := by
  intro e
  let ended : Core FlatBus := ⟨e.1, s.elapsed + 8, s.holdOff, e.2⟩
  have hwait' : ended.bus.waitStates = 0 := by cases op <;> exact hwait
  have hrun : ∃ address, perform op dir repeated s =
      (if repeated && goesOn op e.1 then again address else pure () : Exec FlatBus Unit) ended := by
    obtain ⟨r, elapsed, holdOff, ram, ports, sent, waits⟩ := s
    obtain rfl : waits = 0 := hwait
    cases op with
    | transfer =>
      refine ⟨r.de.word, ?_⟩
      rw [goesOn_transfer]
      rfl
    | compare =>
      refine ⟨r.hl.word, ?_⟩
      rw [goesOn_compare, ← Bool.and_assoc]
      rfl
    | input => exact ⟨r.hl.word, rfl⟩
    | output => exact ⟨e.1.bc.word, rfl⟩
  obtain ⟨address, hrun⟩ := hrun
  rw [hrun, ending_flat _ address ended hwait']

def effects (op : BlockOp) (dir : Direction) (r : Registers) (bus : FlatBus) (n : Nat) :
    Registers × FlatBus := (fun d => effect op dir d.1 d.2)^[n] (r, bus)

section Effects

variable (op : BlockOp) (dir : Direction) (r : Registers) (bus : FlatBus)

@[simp] theorem effects_zero : effects op dir r bus 0 = (r, bus) := rfl

theorem effects_succ (n : Nat) : effects op dir r bus (n + 1) =
    effect op dir (effects op dir r bus n).1 (effects op dir r bus n).2 :=
  Function.iterate_succ_apply' _ n _

/-- An element neither reads nor changes PC and R. -/
theorem effect_frame (pc : UInt16) (refresh : UInt8) :
    effect op dir { r with pc, refresh } bus =
      ({ (effect op dir r bus).1 with pc, refresh }, (effect op dir r bus).2) := by
  cases op <;> rfl

theorem goesOn_frame (pc : UInt16) (refresh : UInt8) :
    goesOn op { r with pc, refresh } = goesOn op r := by
  cases op <;> rfl

theorem waitStates_effects (n : Nat) : (effects op dir r bus n).2.waitStates = bus.waitStates := by
  induction n with
  | zero => rfl
  | succ n ih =>
    rw [effects_succ, ← ih]
    cases op <;> rfl

end Effects

end Block

open Block (At effect effects goesOn)

namespace Cpu

/-- A step makes one element, and goes on behind the instruction when the loop is over. -/
theorem step_block {op : BlockOp} {dir : Direction} (cpu : Cpu) (bus : FlatBus)
    (hwait : bus.waitStates = 0) (hat : At op dir bus.ram cpu.regs.pc) :
    let e := effect op dir cpu.regs bus
    let pc := if goesOn op e.1 then cpu.regs.pc else cpu.regs.pc + 2
    let t := if goesOn op e.1 then 21 else 16
    cpu.step bus = ⟨⟨{ e.1 with
      pc, refresh := cpu.regs.advanceRefresh.advanceRefresh.refresh }, false, cpu.ticks + t⟩, e.2,
      t⟩ := by
  intro e pc t
  have hopcode : bus.ram.get cpu.pastOpcode.regs.pc = Block.opcode op dir := hat.opcode
  have hfetched : cpu.pastOpcode.pastOpcode.regs = { cpu.regs with
      pc := cpu.regs.pc + 1 + 1, refresh := cpu.regs.advanceRefresh.advanceRefresh.refresh } := rfl
  have hback : cpu.regs.pc + 1 + 1 - 2 = cpu.regs.pc := by grind
  have hnext : cpu.regs.pc + 1 + 1 = cpu.regs.pc + 2 := by grind
  rw [cpu.step_extended bus hwait hat.page, hopcode, Block.decode_opcode, Extended.perform,
    Block.perform_flat _ _ _ _ hwait, hfetched, Block.effect_frame]
  simp only [Block.goesOn_frame, Bool.true_and]
  by_cases hmore : goesOn op e.1
  · simp only [e, pc, t, if_pos hmore, hback, Core.settle]
  · simp only [e, pc, t, if_neg hmore, hnext, Core.settle]

/-- A repeating block instruction after a number of elements, with PC at an address and `t`
T-states on. -/
structure Looped (op : BlockOp) (dir : Direction) (cpu : Cpu) (bus : FlatBus) (n : Nat)
    (pc : UInt16) (t : Nat) (s : Stepped FlatBus) : Prop where
  regs : s.cpu.regs =
    { (effects op dir cpu.regs bus n).1 with pc, refresh := s.cpu.regs.refresh }
  refresh : s.cpu.regs.r.toNat % 128 = (cpu.regs.r.toNat + 2 * n) % 128
  bus : s.bus = (effects op dir cpu.regs bus n).2
  tstates : s.tstates = t

section Loop

variable {op : BlockOp} {dir : Direction} {cpu : Cpu} {bus : FlatBus} {n t : Nat}
  {s : Stepped FlatBus}

theorem Looped.af {pc : UInt16} (h : Looped op dir cpu bus n pc t s) :
    s.cpu.regs.af = (effects op dir cpu.regs bus n).1.af := by
  rw [h.regs]

theorem Looped.bc {pc : UInt16} (h : Looped op dir cpu bus n pc t s) :
    s.cpu.regs.bc = (effects op dir cpu.regs bus n).1.bc := by
  rw [h.regs]

variable (hwait : bus.waitStates = 0)

include hwait

theorem Looped.next (h : Looped op dir cpu bus n cpu.regs.pc t s)
    (hat : At op dir (effects op dir cpu.regs bus n).2.ram cpu.regs.pc) :
    let more := goesOn op (effects op dir cpu.regs bus (n + 1)).1
    Looped op dir cpu bus (n + 1) (if more then cpu.regs.pc else cpu.regs.pc + 2)
      (t + if more then 21 else 16) s.next := by
  intro more
  have hpc : s.cpu.regs.pc = cpu.regs.pc := by rw [h.regs]
  have hat' : At op dir s.bus.ram s.cpu.regs.pc := by rwa [h.bus, hpc]
  have hwait' : s.bus.waitStates = 0 := by rw [h.bus, Block.waitStates_effects, hwait]
  have hstep := s.cpu.step_block s.bus hwait' hat'
  have heffect : effect op dir s.cpu.regs s.bus =
      ({ (effects op dir cpu.regs bus (n + 1)).1 with
        pc := cpu.regs.pc, refresh := s.cpu.regs.refresh },
        (effects op dir cpu.regs bus (n + 1)).2) := by
    rw [h.regs, h.bus, Block.effect_frame, Block.effects_succ]
  rw [heffect] at hstep
  simp only [Block.goesOn_frame, hpc] at hstep
  have hr := h.refresh
  unfold Stepped.next
  rw [hstep]
  refine ⟨rfl, ?_, rfl, ?_⟩
  · simp only [Registers.toNat_r, Registers.toNat_refresh_advanceRefresh] at hr ⊢
    omega
  · simp only [h.tstates]
    rfl

theorem looped_steps (hat : ∀ i < n, At op dir (effects op dir cpu.regs bus i).2.ram cpu.regs.pc)
    (hmore : ∀ i, 0 < i → i ≤ n → goesOn op (effects op dir cpu.regs bus i).1) :
    Looped op dir cpu bus n cpu.regs.pc (21 * n) (cpu.steps bus n) := by
  induction n with
  | zero => exact ⟨rfl, rfl, rfl, rfl⟩
  | succ n ih =>
    have hbefore := ih (fun i hi => hat i (by omega)) fun i hpos hi => hmore i hpos (by omega)
    have hnext := hbefore.next hwait (hat n (by omega))
    rw [hmore (n + 1) (by omega) (Nat.le_refl _)] at hnext
    rw [steps_succ]
    exact hnext

/-- A loop that is over after `n` elements takes `n` steps, and PC stays until the last. -/
theorem steps_block (hpos : 0 < n)
    (hat : ∀ i < n, At op dir (effects op dir cpu.regs bus i).2.ram cpu.regs.pc)
    (hmore : ∀ i, 0 < i → i ≤ n → (goesOn op (effects op dir cpu.regs bus i).1 ↔ i < n)) :
    (∀ k ≤ n, (cpu.steps bus k).cpu.regs.pc = cpu.regs.pc + 2 ↔ k = n) ∧
      Looped op dir cpu bus n (cpu.regs.pc + 2) (21 * (n - 1) + 16) (cpu.steps bus n) := by
  have hbefore (k : Nat) (hk : k < n) :
      Looped op dir cpu bus k cpu.regs.pc (21 * k) (cpu.steps bus k) :=
    looped_steps hwait (fun i hi => hat i (by omega))
      fun i hpos hi => (hmore i hpos (by omega)).2 (by omega)
  have hlast : Looped op dir cpu bus n (cpu.regs.pc + 2) (21 * (n - 1) + 16)
      (cpu.steps bus n) := by
    obtain ⟨m, rfl⟩ : ∃ m, n = m + 1 := ⟨n - 1, by omega⟩
    have hover : goesOn op (effects op dir cpu.regs bus (m + 1)).1 = false := by
      simpa using (hmore (m + 1) hpos (Nat.le_refl _)).not.2 (Nat.lt_irrefl _)
    have hnext := (hbefore m (by omega)).next hwait (hat m (by omega))
    rw [hover] at hnext
    rw [steps_succ]
    exact hnext
  refine ⟨?_, hlast⟩
  intro k hk
  constructor
  · intro hpc
    by_contra hne
    rw [(hbefore k (by omega)).regs] at hpc
    grind
  · rintro rfl
    rw [hlast.regs]

/-- The bus after each step of a loop. -/
theorem bus_steps_block (hpos : 0 < n)
    (hat : ∀ i < n, At op dir (effects op dir cpu.regs bus i).2.ram cpu.regs.pc)
    (hmore : ∀ i, 0 < i → i ≤ n → (goesOn op (effects op dir cpu.regs bus i).1 ↔ i < n))
    {k : Nat} (hk : k ≤ n) : (cpu.steps bus k).bus = (effects op dir cpu.regs bus k).2 := by
  obtain hbefore | rfl := Nat.lt_or_eq_of_le hk
  · have hlooped := looped_steps hwait (fun i hi => hat i (Nat.lt_trans hi hbefore))
      fun i hpos hi => (hmore i hpos (by omega)).2 (by omega)
    exact hlooped.bus
  · exact (steps_block hwait hpos hat hmore).2.bus

end Loop

end Cpu
end Zx81.Z80
