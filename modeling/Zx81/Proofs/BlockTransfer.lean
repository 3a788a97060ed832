import Zx81.Proofs.BlockLoop

namespace Zx81.Z80
namespace Block

/-- Bytes copied one after the other, each read from the memory that the ones before it left. -/
def copied (dir : Direction) (source target : UInt16) (ram : Ram) : Nat → Ram
  | 0 => ram
  | n + 1 =>
    let before := copied dir source target ram n
    before.set (dir.along n target) (before.get (dir.along n source))

section Copied

variable (dir : Direction) (source target : UInt16) (ram : Ram)

@[simp] theorem copied_zero : copied dir source target ram 0 = ram := rfl

theorem copied_succ (n : Nat) : copied dir source target ram (n + 1) =
    (copied dir source target ram n).set (dir.along n target)
      ((copied dir source target ram n).get (dir.along n source)) := rfl

theorem get_copied_last (n : Nat) :
    (copied dir source target ram (n + 1)).get (dir.along n target) =
      (copied dir source target ram n).get (dir.along n source) := by
  rw [copied_succ, Ram.get_set_self]

theorem get_copied_of_ne {a : UInt16} {n : Nat} (haway : ∀ i < n, dir.along i target ≠ a) :
    (copied dir source target ram n).get a = ram.get a := by
  induction n with
  | zero => rfl
  | succ n ih =>
    have hbefore := ih fun i hi => haway i (by omega)
    rw [copied_succ, Ram.get_set, if_neg (haway n (by omega)), hbefore]

end Copied

/-- Sign, zero and carry come through a transfer, the other flags do not matter to it. -/
theorem transferFlags_transferFlags (f : Flags) (a a' v v' : UInt8) (more more' : Bool) :
    transferFlags (transferFlags f a v more) a' v' more' = transferFlags f a' v' more' := rfl

structure Transferred (dir : Direction) (r : Registers) (bus : FlatBus) (n : Nat)
    (d : Registers × FlatBus) : Prop where
  bus : d.2 = { bus with ram := copied dir r.hl.word r.de.word bus.ram n }
  regs : d.1 = { r with
    af := ⟨r.a, d.1.af.lo⟩
    bc := .ofWord (r.bc.word - UInt16.ofNat n)
    de := .ofWord (dir.along n r.de.word)
    hl := .ofWord (dir.along n r.hl.word) }
  flags : ∀ a v more, transferFlags d.1.flags a v more = transferFlags r.flags a v more

variable (dir : Direction) (r : Registers) (bus : FlatBus)

theorem Transferred.effect {n : Nat} {d : Registers × FlatBus} (h : Transferred dir r bus n d) :
    let e := effect .transfer dir d.1 d.2
    Transferred dir r bus (n + 1) e ∧
      e.1.flags = transferFlags r.flags r.a
        (e.2.ram.get (dir.along n r.de.word)) (r.bc.word - UInt16.ofNat (n + 1) != 0) := by
  intro e
  have hcount := sub_ofNat_succ r.bc.word n
  have ha : d.1.a = r.a := by rw [h.regs]; rfl
  have hbc : d.1.bc.word = r.bc.word - UInt16.ofNat n := by rw [h.regs]; simp
  have hde : d.1.de.word = dir.along n r.de.word := by rw [h.regs]; simp
  have hhl : d.1.hl.word = dir.along n r.hl.word := by rw [h.regs]; simp
  have hram : d.2.ram = copied dir r.hl.word r.de.word bus.ram n := by rw [h.bus]
  have hbus : e.2 = { bus with ram := copied dir r.hl.word r.de.word bus.ram (n + 1) } := by
    simp only [e, Block.effect, hram, hde, hhl, copied_succ]
    rw [h.bus]
  have hflags : e.1.flags = transferFlags d.1.flags r.a (d.2.ram.get (dir.along n r.hl.word))
      (r.bc.word - UInt16.ofNat (n + 1) != 0) := by
    simp only [e, Block.effect, Registers.flags_withFlags, ha, hbc, hhl, hcount]
  refine ⟨⟨hbus, ?_, ?_⟩, ?_⟩
  · simp only [e, Block.effect, hbc, hde, hhl, hcount, Direction.move_along]
    rw [h.regs]
    rfl
  · intro a v more
    rw [hflags, transferFlags_transferFlags, h.flags]
  · rw [hflags, h.flags, hbus, get_copied_last, hram]

theorem transferred_effects (n : Nat) :
    Transferred dir r bus n (effects .transfer dir r bus n) := by
  induction n with
  | zero => exact ⟨rfl, by simp [Registers.a], fun a v more => rfl⟩
  | succ n ih =>
    rw [effects_succ]
    exact (ih.effect).1

/-- The loop of transfers is over when the count is used up. -/
theorem goesOn_transfers {i : Nat} (hpos : 0 < i) (hle : i ≤ wordCount r.bc.word) :
    goesOn .transfer (effects .transfer dir r bus i).1 ↔ i < wordCount r.bc.word := by
  have hbc : (effects .transfer dir r bus i).1.bc.word = r.bc.word - UInt16.ofNat i := by
    rw [(transferred_effects dir r bus i).regs]
    simp
  rw [goesOn, hbc, bne_iff_ne, ne_eq, sub_eq_zero_iff hpos hle]
  omega

/-- A transfer that does not touch its own two bytes leaves the instruction where it is. -/
theorem at_transfers {pc : UInt16} {n : Nat} (hat : At .transfer dir bus.ram pc)
    (haway : ∀ i < n, dir.along i r.de.word ≠ pc ∧ dir.along i r.de.word ≠ pc + 1) :
    At .transfer dir (effects .transfer dir r bus n).2.ram pc := by
  rw [(transferred_effects dir r bus n).bus]
  constructor
  · rw [get_copied_of_ne _ _ _ _ fun i hi => (haway i hi).1, hat.page]
  · rw [get_copied_of_ne _ _ _ _ fun i hi => (haway i hi).2, hat.opcode]

end Block

open Block (At copied)

namespace Cpu

/-- A repeating transfer copies as many bytes as BC counts, one after the other and one a step,
and the last step alone goes on behind it. -/
theorem transfer_copies (dir : Direction) (cpu : Cpu) (bus : FlatBus) (hwait : bus.waitStates = 0)
    (hat : At .transfer dir bus.ram cpu.regs.pc)
    (haway : ∀ i < wordCount cpu.regs.bc.word, dir.along i cpu.regs.de.word ≠ cpu.regs.pc ∧
      dir.along i cpu.regs.de.word ≠ cpu.regs.pc + 1) :
    let r := cpu.regs
    let n := wordCount r.bc.word
    let last := cpu.steps bus n
    let sum := last.bus.ram.get (dir.along (n - 1) r.de.word) + r.a
    (∀ k ≤ n, (cpu.steps bus k).cpu.regs.pc = r.pc + 2 ↔ k = n) ∧
      last.bus = { bus with ram := copied dir r.hl.word r.de.word bus.ram n } ∧
      last.cpu.regs = { r with
        af := ⟨r.a, { r.flags with
          bit5 := testBit sum 1, halfCarry := false, bit3 := testBit sum 3, parity := false,
          subtract := false }.toByte⟩
        bc := .ofWord 0
        de := .ofWord (dir.along n r.de.word)
        hl := .ofWord (dir.along n r.hl.word)
        pc := r.pc + 2
        refresh := last.cpu.regs.refresh } ∧
      last.cpu.regs.r.toNat % 128 = (r.r.toNat + 2 * n) % 128 ∧
      last.tstates = 21 * (n - 1) + 16 := by
  intro r n last sum
  have hpos : 0 < n := wordCount_pos r.bc.word
  obtain ⟨hsteps, hlast⟩ := steps_block hwait hpos
    (fun i hi => Block.at_transfers dir r bus hat fun j hj => haway j (Nat.lt_trans hj hi))
    fun i hpos hi => Block.goesOn_transfers dir r bus hpos hi
  obtain ⟨m, hm⟩ : ∃ m, n = m + 1 := ⟨n - 1, by omega⟩
  have hlastByte : n - 1 = m := by omega
  have hbefore := Block.transferred_effects dir r bus m
  obtain ⟨hdone, hflags⟩ := hbefore.effect
  rw [← Block.effects_succ, ← hm] at hdone hflags
  have hcount : r.bc.word - UInt16.ofNat n = 0 := (sub_eq_zero_iff hpos (Nat.le_refl n)).2 rfl
  have haf : (Block.effects .transfer dir r bus n).1.af.lo = { r.flags with
      bit5 := testBit sum 1, halfCarry := false, bit3 := testBit sum 3, parity := false,
      subtract := false }.toByte := by
    have hlo := congrArg Flags.toByte hflags
    rw [Registers.flags, Flags.toByte_ofByte, hcount] at hlo
    simp only [hlo, sum, last, hlast.bus, hlastByte]
    rfl
  have hregs := hlast.regs
  rw [hdone.regs, haf, hcount] at hregs
  exact ⟨hsteps, hlast.bus.trans hdone.bus, hregs, hlast.refresh, hlast.tstates⟩

/-- A block copied onto its own second byte. -/
def spreading : FlatBus := { ram := Ram.zero.load 0 [0xED, 0xB0, 7, 8, 9] }

theorem spreading_copies :
    let cpu : Cpu := { regs := { bc := ⟨0, 3⟩, de := ⟨0, 3⟩, hl := ⟨0, 2⟩ } }
    let last := cpu.steps spreading 3
    last.bus.ram.peek 2 4 = [7, 7, 7, 7] ∧ last.cpu.regs.pc = 2 ∧
      last.cpu.regs.r.toNat % 128 = 6 ∧ last.tstates = 58 := by
  intro cpu last
  have hcount : wordCount cpu.regs.bc.word = 3 := by decide
  have hr : cpu.regs.r.toNat = 0 := by decide
  have hat : At .transfer .forward spreading.ram 0 := by
    constructor <;> decide +kernel
  have hcopies := transfer_copies .forward cpu spreading rfl hat (by decide +kernel)
  simp only [hcount, hr] at hcopies
  obtain ⟨hsteps, hbus, -, hrefresh, htime⟩ := hcopies
  refine ⟨?_, (hsteps 3 (Nat.le_refl 3)).2 rfl, hrefresh, htime⟩
  rw [hbus]
  decide +kernel

end Cpu
end Zx81.Z80
