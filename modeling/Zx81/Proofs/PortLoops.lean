import Zx81.Proofs.BlockLoop

namespace Zx81.Z80

/-- The number of elements that a byte counts: zero stands for a full turn. -/
def byteCount (b : UInt8) : Nat := if b = 0 then 256 else b.toNat

theorem byteCount_eq (b : UInt8) : byteCount b = if b.toNat = 0 then 256 else b.toNat := by
  simp only [byteCount, ← UInt8.toNat_inj, UInt8.toNat_zero]

theorem byteCount_pos (b : UInt8) : 0 < byteCount b := by
  rw [byteCount_eq]
  split <;> omega

theorem byteCount_le (b : UInt8) : byteCount b ≤ 256 := by
  have hb := b.toNat_lt
  rw [byteCount_eq]
  split <;> omega

theorem byte_sub_eq_zero_iff {b : UInt8} {i : Nat} (hpos : 0 < i) (hle : i ≤ byteCount b) :
    b - UInt8.ofNat i = 0 ↔ i = byteCount b := by
  have hb : b.toNat < 256 := b.toNat_lt
  rw [byteCount_eq] at hle ⊢
  rw [← UInt8.toNat_inj, UInt8.toNat_sub, UInt8.toNat_ofNat']
  exact countdown_eq_zero_iff hb hpos hle

theorem byte_sub_ofNat_succ (b : UInt8) (n : Nat) :
    b - UInt8.ofNat n - 1 = b - UInt8.ofNat (n + 1) := by
  simp only [UInt8.ofNat_add, UInt8.reduceOfNat]
  grind

/-- Elements less than a full turn apart lie at different addresses. -/
theorem Direction.along_inj (dir : Direction) (w : UInt16) {i j : Nat} (hi : i < 65536)
    (hj : j < 65536) (h : dir.along i w = dir.along j w) : i = j := by
  have hnat := congrArg UInt16.toNat h
  have hw := w.toNat_lt
  cases dir with
  | forward =>
    simp only [along, UInt16.toNat_add, UInt16.toNat_ofNat'] at hnat
    omega
  | backward =>
    simp only [along, UInt16.toNat_sub, UInt16.toNat_ofNat'] at hnat
    omega

namespace Block

/-- The port that an input addresses after `i` others. -/
def inputPort (r : Registers) (i : Nat) : UInt16 :=
  (Pair.mk (r.bc.hi - UInt8.ofNat i) r.bc.lo).word

/-- The port that an output addresses after `i` others. -/
def outputPort (r : Registers) (i : Nat) : UInt16 :=
  (Pair.mk (r.bc.hi - 1 - UInt8.ofNat i) r.bc.lo).word

def received (dir : Direction) (r : Registers) (bus : FlatBus) : Nat → Ram
  | 0 => bus.ram
  | n + 1 => (received dir r bus n).set (dir.along n r.hl.word) (bus.portValue (inputPort r n))

section Ports

variable {op : BlockOp} (hport : op = .input ∨ op = .output)
variable (dir : Direction) (r : Registers) (bus : FlatBus)

theorem get_received_of_ne {a : UInt16} {n : Nat} (haway : ∀ i < n, dir.along i r.hl.word ≠ a) :
    (received dir r bus n).get a = bus.ram.get a := by
  induction n with
  | zero => rfl
  | succ n ih =>
    have hbefore := ih fun i hi => haway i (by omega)
    rw [received, Ram.get_set, if_neg (haway n (by omega)), hbefore]

theorem get_received {n : Nat} (hn : n ≤ 65536) {i : Nat} (hi : i < n) :
    (received dir r bus n).get (dir.along i r.hl.word) = bus.portValue (inputPort r i) := by
  induction n with
  | zero => exact absurd hi (Nat.not_lt_zero i)
  | succ n ih =>
    rw [received]
    obtain hbefore | rfl := Nat.lt_or_eq_of_le (Nat.le_of_lt_succ hi)
    · have haway : dir.along n r.hl.word ≠ dir.along i r.hl.word := by
        intro hsame
        have hplace := dir.along_inj r.hl.word (by omega) (by omega) hsame
        omega
      rw [Ram.get_set, if_neg haway, ih (by omega) hbefore]
    · exact Ram.get_set_self _ _ _

include hport

/-- A byte moved through a port counts B down, and tells by the zero flag whether it is the last. -/
theorem regs_effect :
    let e := effect op dir r bus
    e.1 = { r with
      af := ⟨r.a, e.1.af.lo⟩
      bc := ⟨r.bc.hi - 1, r.bc.lo⟩
      hl := .ofWord (dir.move r.hl.word) } ∧
      e.1.flags.zero = (r.bc.hi - 1 == 0) := by
  obtain rfl | rfl := hport
  · refine ⟨rfl, ?_⟩
    rw [effect, Registers.flags_withFlags]
    rfl
  · refine ⟨rfl, ?_⟩
    rw [effect, Registers.flags_withFlags]
    rfl

theorem regs_effects (n : Nat) :
    let d := effects op dir r bus n
    d.1 = { r with
      af := ⟨r.a, d.1.af.lo⟩
      bc := ⟨r.bc.hi - UInt8.ofNat n, r.bc.lo⟩
      hl := .ofWord (dir.along n r.hl.word) } := by
  intro d
  induction n with
  | zero => simp [d, Registers.a]
  | succ n ih =>
    have ha : (effects op dir r bus n).1.a = r.a := by rw [ih]; rfl
    have hb : (effects op dir r bus n).1.bc = ⟨r.bc.hi - UInt8.ofNat n, r.bc.lo⟩ := by rw [ih]
    have hhl : (effects op dir r bus n).1.hl.word = dir.along n r.hl.word := by rw [ih]; simp
    obtain ⟨hregs, -⟩ := regs_effect hport dir (effects op dir r bus n).1 (effects op dir r bus n).2
    simp only [d, effects_succ]
    rw [hregs, ha, hb, hhl, byte_sub_ofNat_succ, Direction.move_along, ih]

theorem zero_effects (n : Nat) :
    (effects op dir r bus (n + 1)).1.flags.zero = (r.bc.hi - UInt8.ofNat (n + 1) == 0) := by
  have hb : (effects op dir r bus n).1.bc.hi = r.bc.hi - UInt8.ofNat n := by
    rw [regs_effects hport]
  obtain ⟨-, hzero⟩ := regs_effect hport dir (effects op dir r bus n).1 (effects op dir r bus n).2
  rw [effects_succ, hzero, hb, byte_sub_ofNat_succ]

/-- The loop is over when the count is used up. -/
theorem goesOn_ports {i : Nat} (hpos : 0 < i) (hle : i ≤ byteCount r.bc.hi) :
    goesOn op (effects op dir r bus i).1 ↔ i < byteCount r.bc.hi := by
  have hb : (effects op dir r bus i).1.bc.hi = r.bc.hi - UInt8.ofNat i := by
    rw [regs_effects hport]
  have hcount : goesOn op (effects op dir r bus i).1 = (r.bc.hi - UInt8.ofNat i != 0) := by
    rw [← hb]
    obtain rfl | rfl := hport <;> rfl
  rw [hcount, bne_iff_ne, ne_eq, byte_sub_eq_zero_iff hpos hle]
  omega

omit hport

theorem bus_inputs (n : Nat) :
    (effects .input dir r bus n).2 = { bus with ram := received dir r bus n } := by
  induction n with
  | zero => rfl
  | succ n ih =>
    have hregs := regs_effects (.inl rfl) dir r bus n
    have hb : (effects .input dir r bus n).1.bc.word = inputPort r n := by rw [hregs]; rfl
    have hhl : (effects .input dir r bus n).1.hl.word = dir.along n r.hl.word := by
      rw [hregs]
      simp
    rw [effects_succ, effect, ih, hb, hhl]
    rfl

theorem bus_outputs (n : Nat) :
    (effects .output dir r bus n).2 = { bus with
      sent := bus.sent ++
        (List.range n).map fun i => (outputPort r i, bus.ram.get (dir.along i r.hl.word)) } := by
  induction n with
  | zero => simp
  | succ n ih =>
    have hregs := regs_effects (.inr rfl) dir r bus n
    have hcount : r.bc.hi - UInt8.ofNat n - 1 = r.bc.hi - 1 - UInt8.ofNat n := by grind
    have hb : (⟨(effects .output dir r bus n).1.bc.hi - 1, (effects .output dir r bus n).1.bc.lo⟩ :
        Pair).word = outputPort r n := by
      rw [hregs, outputPort, ← hcount]
    have hhl : (effects .output dir r bus n).1.hl.word = dir.along n r.hl.word := by
      rw [hregs]
      simp
    rw [effects_succ, effect, ih, hhl]
    simp only [hb, List.range_succ, List.map_append, List.map_cons, List.map_nil]
    congr 1
    apply Array.ext'
    simp

end Ports

end Block

open Block (At)

namespace Cpu

/-- What a port loop leaves of the registers when its count is used up, `n` steps on. -/
structure Counted (dir : Direction) (cpu : Cpu) (n : Nat) (s : Stepped FlatBus) : Prop where
  regs : s.cpu.regs = { cpu.regs with
    af := ⟨cpu.regs.a, s.cpu.regs.af.lo⟩
    bc := ⟨0, cpu.regs.bc.lo⟩
    hl := .ofWord (dir.along n cpu.regs.hl.word)
    pc := cpu.regs.pc + 2
    refresh := s.cpu.regs.refresh }
  zero : s.cpu.regs.flags.zero = true
  refresh : s.cpu.regs.r.toNat % 128 = (cpu.regs.r.toNat + 2 * n) % 128
  tstates : s.tstates = 21 * (n - 1) + 16

section Loop

variable {op : BlockOp} (hport : op = .input ∨ op = .output) {dir : Direction} {cpu : Cpu}
  {bus : FlatBus} (hwait : bus.waitStates = 0)

include hport hwait

/-- A port loop that leaves its own two bytes as they are takes as many steps as B counts. -/
theorem steps_ports (hat : ∀ i < byteCount cpu.regs.bc.hi,
      At op dir (Block.effects op dir cpu.regs bus i).2.ram cpu.regs.pc) :
    let n := byteCount cpu.regs.bc.hi
    (∀ k ≤ n, (cpu.steps bus k).cpu.regs.pc = cpu.regs.pc + 2 ↔ k = n) ∧
      (∀ k ≤ n, (cpu.steps bus k).bus = (Block.effects op dir cpu.regs bus k).2) ∧
      Counted dir cpu n (cpu.steps bus n) := by
  intro n
  have hpos : 0 < n := byteCount_pos cpu.regs.bc.hi
  have hmore (i : Nat) (hi : 0 < i) (hle : i ≤ n) :
      Block.goesOn op (Block.effects op dir cpu.regs bus i).1 ↔ i < n :=
    Block.goesOn_ports hport dir cpu.regs bus hi hle
  obtain ⟨hsteps, hlast⟩ := steps_block hwait hpos hat hmore
  have hover : cpu.regs.bc.hi - UInt8.ofNat n = 0 :=
    (byte_sub_eq_zero_iff hpos (Nat.le_refl n)).2 rfl
  have hdone := Block.regs_effects hport dir cpu.regs bus n
  rw [hover] at hdone
  obtain ⟨m, hm⟩ : ∃ m, n = m + 1 := ⟨n - 1, by omega⟩
  have hzero := Block.zero_effects hport dir cpu.regs bus m
  rw [← hm, hover] at hzero
  refine ⟨hsteps, fun k hk => bus_steps_block hwait hpos hat hmore hk, ?_, ?_, hlast.refresh,
    hlast.tstates⟩
  · have hregs := hlast.regs
    rw [hdone, ← hlast.af] at hregs
    exact hregs
  · rw [Registers.flags, hlast.af]
    exact hzero

end Loop

/-- A repeating output sends as many bytes as B counts, one a step and in order, and a repeating
input that does not store on its own two bytes stores as many; the last step alone goes on behind
the instruction. -/
theorem ports_loop (dir : Direction) (cpu : Cpu) (bus : FlatBus) (hwait : bus.waitStates = 0) :
    let r := cpu.regs
    let n := byteCount r.bc.hi
    let done := (∀ k ≤ n, (cpu.steps bus k).cpu.regs.pc = r.pc + 2 ↔ k = n) ∧
      Counted dir cpu n (cpu.steps bus n)
    (At .output dir bus.ram r.pc →
      done ∧ ∀ k ≤ n, (cpu.steps bus k).bus = { bus with
        sent := bus.sent ++ (List.range k).map fun i =>
          ((Pair.mk (r.bc.hi - 1 - UInt8.ofNat i) r.bc.lo).word,
            bus.ram.get (dir.along i r.hl.word)) }) ∧
    (At .input dir bus.ram r.pc →
      (∀ i < n, dir.along i r.hl.word ≠ r.pc ∧ dir.along i r.hl.word ≠ r.pc + 1) →
      done ∧ ∀ k ≤ n, ∃ ram, (cpu.steps bus k).bus = { bus with ram } ∧
        (∀ i < k, ram.get (dir.along i r.hl.word) =
          bus.portValue (Pair.mk (r.bc.hi - UInt8.ofNat i) r.bc.lo).word) ∧
        ∀ a, (∀ i < k, dir.along i r.hl.word ≠ a) → ram.get a = bus.ram.get a) := by
  intro r n done
  have hn : n ≤ 256 := byteCount_le r.bc.hi
  constructor
  · intro hat
    have hlies (i : Nat) (hi : i < n) :
        At .output dir (Block.effects .output dir r bus i).2.ram r.pc := by
      rw [Block.bus_outputs]
      exact hat
    obtain ⟨hsteps, hbus, hcounted⟩ := steps_ports (.inr rfl) hwait hlies
    refine ⟨⟨hsteps, hcounted⟩, ?_⟩
    intro k hk
    exact (hbus k hk).trans (Block.bus_outputs dir r bus k)
  · intro hat haway
    have hlies (i : Nat) (hi : i < n) :
        At .input dir (Block.effects .input dir r bus i).2.ram r.pc := by
      rw [Block.bus_inputs]
      constructor
      · rw [Block.get_received_of_ne dir r bus fun j hj => (haway j (by omega)).1]
        exact hat.page
      · rw [Block.get_received_of_ne dir r bus fun j hj => (haway j (by omega)).2]
        exact hat.opcode
    obtain ⟨hsteps, hbus, hcounted⟩ := steps_ports (.inl rfl) hwait hlies
    refine ⟨⟨hsteps, hcounted⟩, ?_⟩
    intro k hk
    refine ⟨Block.received dir r bus k, (hbus k hk).trans (Block.bus_inputs dir r bus k), ?_, ?_⟩
    · intro i hi
      exact Block.get_received dir r bus (by omega) hi
    · intro a ha
      exact Block.get_received_of_ne dir r bus ha

/-- An output and an input of two bytes each, in a memory with some more. -/
def ported : FlatBus :=
  { ram := Ram.zero.load 0 [0xED, 0xB3, 0xED, 0xBA, 7, 8]
    ports := [(0x0209, 1), (0x0109, 2)] }

theorem ported_loops :
    let regs : Registers := { bc := ⟨2, 9⟩, hl := ⟨0, 4⟩ }
    let sending : Cpu := { regs }
    let storing : Cpu := { regs := { regs with pc := 2, hl := ⟨0, 5⟩ } }
    let sent := sending.steps ported 2
    let stored := storing.steps ported 2
    (sent.bus.sent = #[(0x0109, 7), (0x0009, 8)] ∧ sent.cpu.regs.pc = 2 ∧
        sent.cpu.regs.hl.word = 6 ∧ sent.tstates = 37) ∧
      stored.bus.ram.peek 3 3 = [0xBA, 2, 1] ∧ stored.cpu.regs.pc = 4 ∧
        stored.cpu.regs.hl.word = 3 ∧ stored.cpu.regs.flags.zero := by
  intro regs sending storing sent stored
  have hcount : byteCount regs.bc.hi = 2 := by decide
  have hsend : At .output .forward ported.ram 0 := by constructor <;> decide +kernel
  have hstore : At .input .backward ported.ram 2 := by constructor <;> decide +kernel
  obtain ⟨⟨hpc, hcounted⟩, hsent⟩ := (ports_loop .forward sending ported rfl).1 hsend
  obtain ⟨⟨hpc', hcounted'⟩, hstored⟩ := (ports_loop .backward storing ported rfl).2 hstore
    (by decide +kernel)
  obtain ⟨ram, hram, hbytes, hothers⟩ := hstored 2 (Nat.le_refl 2)
  refine ⟨⟨?_, (hpc 2 (Nat.le_refl 2)).2 rfl, ?_, hcounted.tstates⟩, ?_,
    (hpc' 2 (Nat.le_refl 2)).2 rfl, ?_, hcounted'.zero⟩
  · exact (congrArg FlatBus.sent (hsent 2 (Nat.le_refl 2))).trans (by decide +kernel)
  · exact (congrArg (fun r : Registers => r.hl.word) hcounted.regs).trans (by decide)
  · have htop : Direction.backward.along 0 storing.regs.hl.word = 5 := by decide
    have hbelow : Direction.backward.along 1 storing.regs.hl.word = 4 := by decide
    have hfirst := hbytes 0 (by decide)
    have hsecond := hbytes 1 (by decide)
    rw [htop, show ported.portValue _ = 1 by decide +kernel] at hfirst
    rw [hbelow, show ported.portValue _ = 2 by decide +kernel] at hsecond
    have hother : ram.get 3 = 0xBA := (hothers 3 (by decide)).trans (by decide +kernel)
    have hpeek : ram.peek 3 3 = [ram.get 3, ram.get 4, ram.get 5] := rfl
    have hbus : stored.bus.ram = ram := congrArg FlatBus.ram hram
    rw [hbus, hpeek, hfirst, hsecond, hother]
  · exact (congrArg (fun r : Registers => r.hl.word) hcounted'.regs).trans (by decide)

end Cpu

end Zx81.Z80
