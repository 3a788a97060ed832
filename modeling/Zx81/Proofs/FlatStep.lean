import Mathlib.Logic.Function.Iterate
import Zx81.Bus.Flat
import Zx81.Proofs.BusAccounting

namespace Zx81.Z80

namespace Registers

theorem toNat_and_low (v : UInt8) : (v &&& 0x7F).toNat = v.toNat % 128 := by
  rw [UInt8.toNat_and]
  exact Nat.and_two_pow_sub_one_eq_mod v.toNat 7

/-- The low seven bits of R are those of the refresh counter. -/
theorem toNat_r (regs : Registers) : regs.r.toNat % 128 = regs.refresh.toNat % 128 := by
  have h128 : 128 = 2 ^ 7 := rfl
  rw [r, UInt8.toNat_or, toNat_and_low, UInt8.toNat_and, h128, Nat.or_mod_two_pow,
    Nat.and_mod_two_pow]
  simp

/-- Bit 7 of R is that of the byte beside the counter. -/
theorem testBit_r (regs : Registers) : testBit regs.r 7 = testBit regs.refreshTop 7 := by
  have hlow : (0x7F : UInt8).toNat.testBit 7 = false := rfl
  have htop : (0x80 : UInt8).toNat.testBit 7 = true := rfl
  simp only [testBit, r, UInt8.toNat_or, UInt8.toNat_and, Nat.testBit_or, Nat.testBit_and,
    hlow, htop, Bool.and_false, Bool.and_true, Bool.false_or]

theorem toNat_refresh_advanceRefresh (regs : Registers) :
    regs.advanceRefresh.refresh.toNat = (regs.refresh.toNat + 1) % 128 := by
  rw [advanceRefresh, toNat_and_low, UInt8.toNat_add, UInt8.toNat_one]
  omega

end Registers

variable {σ : Type} [Bus σ]

/-- One step more, with the time of all of them. -/
def Stepped.next (s : Stepped σ) : Stepped σ :=
  let t := s.cpu.step s.bus
  ⟨t.cpu, t.bus, s.tstates + t.tstates⟩

namespace Cpu

def steps (cpu : Cpu) (bus : σ) (n : Nat) : Stepped σ := Stepped.next^[n] ⟨cpu, bus, 0⟩

@[simp] theorem steps_zero (cpu : Cpu) (bus : σ) : cpu.steps bus 0 = ⟨cpu, bus, 0⟩ := rfl

theorem steps_succ (cpu : Cpu) (bus : σ) (n : Nat) :
    cpu.steps bus (n + 1) = (cpu.steps bus n).next :=
  Function.iterate_succ_apply' Stepped.next n _

/-- PC and R each advanced by one. -/
def pastOpcode (cpu : Cpu) : Cpu :=
  { cpu with regs := { cpu.regs.advanceRefresh with pc := cpu.regs.pc + 1 } }

theorem regs_pastOpcode_pastOpcode (cpu : Cpu) : cpu.pastOpcode.pastOpcode.regs = { cpu.regs with
    pc := cpu.regs.pc + 2, refresh := cpu.pastOpcode.pastOpcode.regs.refresh } := by
  have hpc : cpu.regs.pc + 2 = cpu.regs.pc + 1 + 1 := by grind
  rw [hpc]
  rfl

/-- A step on any bus: the opcode at PC is fetched and executed. -/
theorem step_eq (cpu : Cpu) (bus : σ) :
    let waited := Bus.memoryWait cpu.regs.pc 0 4 bus
    let fetched := Bus.fetch cpu.regs.pc cpu.regs.ir waited.2
    cpu.step bus = ((decode fetched.1).execute
      ⟨cpu.pastOpcode.regs, 4 + waited.1, false, fetched.2⟩).2.settle cpu.ticks := by
  intro waited fetched
  rw [← Nat.zero_add (4 + waited.1)]
  rfl

section Flat

variable (cpu : Cpu) (bus : FlatBus)

theorem fetchOpcode_plain (elapsed : Nat) (holdOff : Bool) :
    (Z80.fetchOpcode ⟨cpu.regs, elapsed, holdOff, bus⟩ : UInt8 × Core FlatBus) =
      (bus.ram.get cpu.regs.pc,
        ⟨cpu.pastOpcode.regs, elapsed + (4 + bus.waitStates), holdOff, bus⟩) := by
  obtain ⟨ram, ports, sent, waits⟩ := bus
  rfl

/-- A step on plain memory: the opcode at PC is fetched and executed. -/
theorem step_plain : cpu.step bus = ((decode (bus.ram.get cpu.regs.pc)).execute
    ⟨cpu.pastOpcode.regs, 4 + bus.waitStates, false, bus⟩).2.settle cpu.ticks := cpu.step_eq bus

variable (hwait : bus.waitStates = 0)

include hwait

theorem fetchOpcode_flat (elapsed : Nat) (holdOff : Bool) :
    (Z80.fetchOpcode ⟨cpu.regs, elapsed, holdOff, bus⟩ : UInt8 × Core FlatBus) =
      (bus.ram.get cpu.regs.pc, ⟨cpu.pastOpcode.regs, elapsed + 4, holdOff, bus⟩) := by
  rw [fetchOpcode_plain, hwait]

theorem step_flat : cpu.step bus = ((decode (bus.ram.get cpu.regs.pc)).execute
    ⟨cpu.pastOpcode.regs, 4, false, bus⟩).2.settle cpu.ticks := by
  rw [step_plain, hwait]

/-- A step that begins with an opcode behind which a second one is fetched. -/
theorem step_page {page : UInt8} {p : UInt8 → Exec FlatBus Unit}
    (hexecute : (decode page).execute = Z80.fetchOpcode >>= p)
    (hpage : bus.ram.get cpu.regs.pc = page) :
    cpu.step bus = (p (bus.ram.get cpu.pastOpcode.regs.pc)
      ⟨cpu.pastOpcode.pastOpcode.regs, 8, false, bus⟩).2.settle cpu.ticks := by
  have hfetch := cpu.pastOpcode.fetchOpcode_flat bus hwait 4 false
  rw [cpu.step_flat bus hwait, hpage, hexecute]
  simp only [bind, StateT.bind, hfetch]

theorem step_extended (hpage : bus.ram.get cpu.regs.pc = 0xED) :
    cpu.step bus = ((Extended.decode (bus.ram.get cpu.pastOpcode.regs.pc)).perform
      ⟨cpu.pastOpcode.pastOpcode.regs, 8, false, bus⟩).2.settle cpu.ticks := by
  have hexecute : (decode 0xED).execute =
      Z80.fetchOpcode >>= fun op => (Extended.decode op).perform (σ := FlatBus) := rfl
  exact cpu.step_page bus hwait hexecute hpage

end Flat

end Cpu
end Zx81.Z80
