import Zx81.Proofs.BlockLoop

namespace Zx81.Z80
namespace Block

/-- How many of the `n` bytes from an address on a search looks at: those up to the first that is
`a`, or all of them. -/
def searchLength (dir : Direction) (ram : Ram) (start : UInt16) (a : UInt8) (n : Nat) : Nat :=
  min ((List.range n).findIdx (fun i => ram.get (dir.along i start) == a) + 1) n

section SearchLength

variable (dir : Direction) (ram : Ram) (start : UInt16) (a : UInt8) (n : Nat)

theorem searchLength_pos (hpos : 0 < n) : 0 < searchLength dir ram start a n := by
  unfold searchLength
  omega

theorem searchLength_le : searchLength dir ram start a n ≤ n := Nat.min_le_right _ _

/-- A byte that the search looks at before its last one is not the accumulator. -/
theorem ne_of_lt_searchLength {i : Nat} (hi : i + 1 < searchLength dir ram start a n) :
    ram.get (dir.along i start) ≠ a := by
  unfold searchLength at hi
  have hfirst : i < (List.range n).findIdx (fun i => ram.get (dir.along i start) == a) := by omega
  have hnot := List.not_of_lt_findIdx hfirst
  simpa using hnot

/-- A search that ends early has found the accumulator. -/
theorem eq_of_searchLength_lt {i : Nat} (hlast : searchLength dir ram start a n = i + 1)
    (hearly : i + 1 < n) : ram.get (dir.along i start) = a := by
  unfold searchLength at hlast
  have hfirst : (List.range n).findIdx (fun i => ram.get (dir.along i start) == a) = i := by omega
  have hwithin : i < (List.range n).length := by
    rw [List.length_range]
    omega
  have hfound := ((List.findIdx_eq hwithin).1 hfirst).1
  simpa using hfound

end SearchLength

/-- Flags of a comparison are those of a subtraction that leaves the carry and reports the count
in parity. -/
theorem compareFlags_eq (f : Flags) (a v : UInt8) (more : Bool) :
    let diff := Arithmetic.sub a v false
    let rest := if diff.flags.halfCarry then diff.value - 1 else diff.value
    compareFlags f a v more = { diff.flags with
      bit5 := testBit rest 1, bit3 := testBit rest 3, parity := more, carry := f.carry } := by
  have hvalue : UInt8.ofNat (256 + a.toNat - v.toNat) = a - v := by
    apply UInt8.toNat_inj.1
    have ha := a.toNat_lt
    have hv := v.toNat_lt
    rw [UInt8.toNat_ofNat', UInt8.toNat_sub]
    omega
  intro diff rest
  simp [compareFlags, rest, diff, Arithmetic.sub, Flags.ofResult, hvalue, Bool.cond_decide]

structure Compared (dir : Direction) (r : Registers) (bus : FlatBus) (n : Nat)
    (d : Registers × FlatBus) : Prop where
  bus : d.2 = bus
  regs : d.1 = { r with
    af := ⟨r.a, d.1.af.lo⟩
    bc := .ofWord (r.bc.word - UInt16.ofNat n)
    hl := .ofWord (dir.along n r.hl.word) }
  carry : d.1.flags.carry = r.flags.carry

variable (dir : Direction) (r : Registers) (bus : FlatBus)

theorem Compared.effect {n : Nat} {d : Registers × FlatBus} (h : Compared dir r bus n d) :
    let e := effect .compare dir d.1 d.2
    Compared dir r bus (n + 1) e ∧
      e.1.flags = compareFlags r.flags r.a (bus.ram.get (dir.along n r.hl.word))
        (r.bc.word - UInt16.ofNat (n + 1) != 0) := by
  intro e
  have hcount := sub_ofNat_succ r.bc.word n
  have ha : d.1.a = r.a := by rw [h.regs]; rfl
  have hbc : d.1.bc.word = r.bc.word - UInt16.ofNat n := by rw [h.regs]; simp
  have hhl : d.1.hl.word = dir.along n r.hl.word := by rw [h.regs]; simp
  have hflags : e.1.flags = compareFlags r.flags r.a (bus.ram.get (dir.along n r.hl.word))
      (r.bc.word - UInt16.ofNat (n + 1) != 0) := by
    simp only [e, Block.effect, Registers.flags_withFlags, ha, hbc, hhl, hcount, h.bus]
    simp only [compareFlags, h.carry]
  refine ⟨⟨h.bus, ?_, ?_⟩, hflags⟩
  · simp only [e, Block.effect, hbc, hhl, hcount, Direction.move_along]
    rw [h.regs]
    rfl
  · rw [hflags]
    rfl

theorem compared_effects (n : Nat) : Compared dir r bus n (effects .compare dir r bus n) := by
  induction n with
  | zero => exact ⟨rfl, by simp [Registers.a], rfl⟩
  | succ n ih =>
    rw [effects_succ]
    exact (ih.effect).1

theorem flags_compared (n : Nat) : (effects .compare dir r bus (n + 1)).1.flags =
    compareFlags r.flags r.a (bus.ram.get (dir.along n r.hl.word))
      (r.bc.word - UInt16.ofNat (n + 1) != 0) := by
  rw [effects_succ]
  exact ((compared_effects dir r bus n).effect).2

/-- The loop of comparisons is over with the last byte that the search looks at. -/
theorem goesOn_comparisons {i : Nat} (hpos : 0 < i)
    (hle : i ≤ searchLength dir bus.ram r.hl.word r.a (wordCount r.bc.word)) :
    goesOn .compare (effects .compare dir r bus i).1 ↔
      i < searchLength dir bus.ram r.hl.word r.a (wordCount r.bc.word) := by
  obtain ⟨j, rfl⟩ : ∃ j, i = j + 1 := ⟨i - 1, by omega⟩
  have hcount := searchLength_le dir bus.ram r.hl.word r.a (wordCount r.bc.word)
  have hbc : (effects .compare dir r bus (j + 1)).1.bc.word = r.bc.word - UInt16.ofNat (j + 1) := by
    rw [(compared_effects dir r bus (j + 1)).regs]
    simp
  have hzero : (effects .compare dir r bus (j + 1)).1.flags.zero =
      (r.a == bus.ram.get (dir.along j r.hl.word)) := by
    rw [flags_compared, zero_compareFlags]
  rw [goesOn, hbc, hzero]
  simp only [Bool.and_eq_true, bne_iff_ne, ne_eq, sub_eq_zero_iff hpos (Nat.le_trans hle hcount),
    Bool.not_eq_true', beq_eq_false_iff_ne]
  constructor
  · rintro ⟨hmore, hmiss⟩
    by_contra hover
    have hlast : searchLength dir bus.ram r.hl.word r.a (wordCount r.bc.word) = j + 1 := by omega
    exact hmiss (eq_of_searchLength_lt dir bus.ram r.hl.word r.a _ hlast (by omega)).symm
  · intro hmore
    exact ⟨by omega, (ne_of_lt_searchLength dir bus.ram r.hl.word r.a _ hmore).symm⟩

end Block

open Block (At searchLength)

namespace Cpu

/-- A repeating search takes a step for each byte up to the first that is the accumulator, or as
many as BC counts, and the last step alone goes on behind it. -/
theorem search_finds (dir : Direction) (cpu : Cpu) (bus : FlatBus) (hwait : bus.waitStates = 0)
    (hat : At .compare dir bus.ram cpu.regs.pc) :
    let r := cpu.regs
    let k := searchLength dir bus.ram r.hl.word r.a (wordCount r.bc.word)
    let last := cpu.steps bus k
    let value := bus.ram.get (dir.along (k - 1) r.hl.word)
    let diff := (Arithmetic.sub r.a value false).flags
    let flags := last.cpu.regs.flags
    (∀ i ≤ k, (cpu.steps bus i).cpu.regs.pc = r.pc + 2 ↔ i = k) ∧
      last.bus = bus ∧
      last.cpu.regs = { r with
        af := ⟨r.a, flags.toByte⟩
        bc := .ofWord (r.bc.word - UInt16.ofNat k)
        hl := .ofWord (dir.along k r.hl.word)
        pc := r.pc + 2
        refresh := last.cpu.regs.refresh } ∧
      last.cpu.regs.r.toNat % 128 = (r.r.toNat + 2 * k) % 128 ∧
      (flags.zero ↔ value = r.a) ∧ (flags.parity ↔ last.cpu.regs.bc.word ≠ 0) ∧
      flags.subtract ∧ flags.carry = r.flags.carry ∧
      flags.sign = diff.sign ∧ flags.halfCarry = diff.halfCarry ∧
      last.tstates = 21 * (k - 1) + 16 := by
  intro r k last value diff flags
  have hpos : 0 < k :=
    Block.searchLength_pos dir bus.ram r.hl.word r.a _ (wordCount_pos r.bc.word)
  have hkept (i : Nat) : (Block.effects .compare dir r bus i).2 = bus :=
    (Block.compared_effects dir r bus i).bus
  obtain ⟨hsteps, hlast⟩ := steps_block hwait hpos
    (fun i hi => by rw [hkept]; exact hat)
    fun i hpos hi => Block.goesOn_comparisons dir r bus hpos hi
  have hdone := Block.compared_effects dir r bus k
  have haf : last.cpu.regs.af = (Block.effects .compare dir r bus k).1.af := hlast.af
  have hbc : last.cpu.regs.bc = .ofWord (r.bc.word - UInt16.ofNat k) := by
    rw [hlast.bc, hdone.regs]
  have hregs : last.cpu.regs = { r with
      af := ⟨r.a, flags.toByte⟩
      bc := .ofWord (r.bc.word - UInt16.ofNat k)
      hl := .ofWord (dir.along k r.hl.word)
      pc := r.pc + 2
      refresh := last.cpu.regs.refresh } := by
    have h := hlast.regs
    rw [hdone.regs] at h
    simp only [flags, Registers.flags, Flags.toByte_ofByte, haf]
    exact h
  obtain ⟨j, hj⟩ : ∃ j, k = j + 1 := ⟨k - 1, by omega⟩
  have hflags : flags = Block.compareFlags r.flags r.a value (last.cpu.regs.bc.word != 0) := by
    have hvalue : value = bus.ram.get (dir.along j r.hl.word) := by
      simp only [value, hj, Nat.add_sub_cancel]
    have h := Block.flags_compared dir r bus j
    rw [← hj, ← hvalue] at h
    rw [hbc, Pair.word_ofWord, ← h]
    simp only [flags, Registers.flags, haf]
  have hdiff := Block.compareFlags_eq r.flags r.a value (last.cpu.regs.bc.word != 0)
  refine ⟨hsteps, hlast.bus.trans hdone.bus, hregs, hlast.refresh, ?_, ?_, ?_, ?_, ?_, ?_,
    hlast.tstates⟩
  · rw [hflags, Block.zero_compareFlags, beq_iff_eq, eq_comm]
  · rw [hflags]
    exact bne_iff_ne
  · rw [hflags]
    rfl
  · rw [hflags]
    rfl
  · rw [hflags, hdiff]
  · rw [hflags, hdiff]

/-- A block of which the second byte is the one looked for. -/
def searched : FlatBus := { ram := Ram.zero.load 0 [0xED, 0xB1, 5, 6, 6] }

theorem searched_finds :
    let cpu : Cpu := { regs := { af := ⟨6, 0⟩, bc := ⟨0, 9⟩, hl := ⟨0, 2⟩ } }
    let last := cpu.steps searched 2
    last.cpu.regs.pc = 2 ∧ last.cpu.regs.flags.zero ∧ last.cpu.regs.bc.word = 7 ∧
      last.cpu.regs.flags.parity ∧ last.tstates = 37 := by
  intro cpu last
  have hlength : searchLength .forward searched.ram cpu.regs.hl.word cpu.regs.a
      (wordCount cpu.regs.bc.word) = 2 := by
    decide +kernel
  have hat : At .compare .forward searched.ram 0 := by
    constructor <;> decide +kernel
  have hfinds := search_finds .forward cpu searched rfl hat
  simp only [hlength] at hfinds
  obtain ⟨hsteps, -, hregs, -, hzero, hparity, -, -, -, -, htime⟩ := hfinds
  have hbc : last.cpu.regs.bc.word = 7 := by
    rw [hregs]
    decide
  refine ⟨(hsteps 2 (Nat.le_refl 2)).2 rfl, hzero.2 (by decide +kernel), hbc, hparity.2 ?_, htime⟩
  rw [hbc]
  decide

end Cpu
end Zx81.Z80
