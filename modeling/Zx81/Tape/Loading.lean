import Zx81.Machine.Memory
import Zx81.Tape.Deck
import Zx81.Z80.Cpu

namespace Zx81

open Z80 (Cpu)

structure LoadEntry where
  /-- Its address. -/
  pc : UInt16
  /-- The opcode at its address, by which the ROM is recognised. -/
  opcode : UInt8
  /-- Where a program is loaded to. -/
  destination : UInt16
  /-- Where the processor goes on. -/
  resume : UInt16
  deriving DecidableEq

namespace LoadEntry

def zx81 : LoadEntry := ⟨0x0356, 0x1F, 0x4009, 0x0207⟩

def zx80 : LoadEntry := ⟨0x0222, 0x3E, 0x4000, 0x0203⟩

def all : List LoadEntry := [zx81, zx80]

/-- The routine that begins at an address, if memory holds its opcode there. -/
def at? (m : Memory) (pc : UInt16) : Option LoadEntry :=
  all.find? fun e => e.pc == pc && m.read pc == e.opcode

def store (m : Memory) (a : UInt16) : List UInt8 → Memory
  | [] => m
  | v :: vs => store (m.write a v) (a + 1) vs

/-- The processor after the routine: back from the call that led to it, and further on. -/
def leave (e : LoadEntry) (cpu : Cpu) : Cpu :=
  { cpu with regs := { cpu.regs with sp := cpu.regs.sp + 2, pc := e.resume } }

/-- Memory with the program of a record, without its name. -/
def put (e : LoadEntry) (m : Memory) (record : List UInt8) : Memory :=
  store m e.destination (record.drop (Tape.nameLength record))

end LoadEntry

structure Loading where
  cpu : Cpu
  memory : Memory
  tape : Tape

/-- Loads the next record if the processor is at the start of a loading routine. The answer tells
whether it did. -/
def Loading.run : Loading → Bool × Loading
  | ⟨cpu, memory, tape⟩ =>
    match LoadEntry.at? memory cpu.regs.pc, tape.next? with
    | some e, some (record, tape) => (true, ⟨e.leave cpu, e.put memory record, tape⟩)
    | _, _ => (false, ⟨cpu, memory, tape⟩)

end Zx81
