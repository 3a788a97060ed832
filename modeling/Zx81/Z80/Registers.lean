import Zx81.Z80.Pair
import Zx81.Z80.Flags

namespace Zx81.Z80

/-- The address `d` bytes from `w`, where `d` counts from 128 up as negative. -/
def displace (w : UInt16) (d : UInt8) : UInt16 :=
  if d < 128 then w + d.toUInt16 else w + d.toUInt16 - 256

inductive IndexReg where
  | ix
  | iy
  deriving DecidableEq

/-- A byte register. The halves of the index registers can be named too. -/
inductive Reg8 where
  | a
  | b
  | c
  | d
  | e
  | h
  | l
  | indexHigh (x : IndexReg)
  | indexLow (x : IndexReg)
  deriving DecidableEq

inductive Reg16 where
  | bc
  | de
  | hl
  | af
  | sp
  | index (x : IndexReg)
  deriving DecidableEq

inductive Condition where
  | notZero
  | zero
  | notCarry
  | carry
  | parityOdd
  | parityEven
  | plus
  | minus
  deriving DecidableEq

def Condition.ofCode : Fin 8 → Condition
  | 0 => notZero
  | 1 => zero
  | 2 => notCarry
  | 3 => carry
  | 4 => parityOdd
  | 5 => parityEven
  | 6 => plus
  | _ => minus

def Condition.holds (f : Flags) : Condition → Bool
  | notZero => !f.zero
  | zero => f.zero
  | notCarry => !f.carry
  | carry => f.carry
  | parityOdd => !f.parity
  | parityEven => f.parity
  | plus => !f.sign
  | minus => f.sign

/-- All registers, the interrupt state and the halt flag. The default value is the state after
a reset. -/
@[ext] structure Registers where
  af : Pair := {}
  bc : Pair := {}
  de : Pair := {}
  hl : Pair := {}
  ix : Pair := {}
  iy : Pair := {}
  sp : UInt16 := 0
  pc : UInt16 := 0
  /-- The alternate set, exchanged as whole pairs. -/
  afAlt : Pair := {}
  bcAlt : Pair := {}
  deAlt : Pair := {}
  hlAlt : Pair := {}
  i : UInt8 := 0
  /-- The refresh counter. -/
  refresh : UInt8 := 0
  /-- The byte whose bit 7 is bit 7 of R. -/
  refreshTop : UInt8 := 0
  /-- Maskable interrupts are accepted. -/
  iff1 : Bool := false
  /-- What `iff1` is set back to on return from a non-maskable interrupt. -/
  iff2 : Bool := false
  /-- The interrupt mode. -/
  im : UInt8 := 0
  halted : Bool := false
  deriving DecidableEq, Inhabited

namespace Registers

def a (r : Registers) : UInt8 := r.af.hi

def flags (r : Registers) : Flags := .ofByte r.af.lo

def withA (r : Registers) (v : UInt8) : Registers := { r with af := { r.af with hi := v } }

def withFlags (r : Registers) (f : Flags) : Registers :=
  { r with af := { r.af with lo := f.toByte } }

def index (r : Registers) : IndexReg → Pair
  | .ix => r.ix
  | .iy => r.iy

def withIndex (r : Registers) (x : IndexReg) (p : Pair) : Registers :=
  match x with
  | .ix => { r with ix := p }
  | .iy => { r with iy := p }

def get8 (r : Registers) : Reg8 → UInt8
  | .a => r.af.hi
  | .b => r.bc.hi
  | .c => r.bc.lo
  | .d => r.de.hi
  | .e => r.de.lo
  | .h => r.hl.hi
  | .l => r.hl.lo
  | .indexHigh x => (r.index x).hi
  | .indexLow x => (r.index x).lo

def set8 (r : Registers) (reg : Reg8) (v : UInt8) : Registers :=
  match reg with
  | .a => { r with af := { r.af with hi := v } }
  | .b => { r with bc := { r.bc with hi := v } }
  | .c => { r with bc := { r.bc with lo := v } }
  | .d => { r with de := { r.de with hi := v } }
  | .e => { r with de := { r.de with lo := v } }
  | .h => { r with hl := { r.hl with hi := v } }
  | .l => { r with hl := { r.hl with lo := v } }
  | .indexHigh x => r.withIndex x { r.index x with hi := v }
  | .indexLow x => r.withIndex x { r.index x with lo := v }

def get16 (r : Registers) : Reg16 → UInt16
  | .bc => r.bc.word
  | .de => r.de.word
  | .hl => r.hl.word
  | .af => r.af.word
  | .sp => r.sp
  | .index x => (r.index x).word

def set16 (r : Registers) (reg : Reg16) (w : UInt16) : Registers :=
  match reg with
  | .bc => { r with bc := .ofWord w }
  | .de => { r with de := .ofWord w }
  | .hl => { r with hl := .ofWord w }
  | .af => { r with af := .ofWord w }
  | .sp => { r with sp := w }
  | .index x => r.withIndex x (.ofWord w)

/-- R as a program reads it. -/
def r (regs : Registers) : UInt8 := (regs.refresh &&& 0x7F) ||| (regs.refreshTop &&& 0x80)

/-- Loads R: seven bits into the counter, bit 7 beside it. -/
def withR (regs : Registers) (v : UInt8) : Registers :=
  { regs with refresh := v &&& 0x7F, refreshTop := v &&& 0x80 }

def advanceRefresh (regs : Registers) : Registers :=
  { regs with refresh := (regs.refresh + 1) &&& 0x7F }

def retreatRefresh (regs : Registers) : Registers :=
  { regs with refresh := (regs.refresh - 1) &&& 0x7F }

/-- I and R as the address of a refresh cycle. -/
def ir (regs : Registers) : UInt16 := 256 * regs.i.toUInt16 + regs.r.toUInt16

def exchangeAf (regs : Registers) : Registers :=
  { regs with af := regs.afAlt, afAlt := regs.af }

def exchangeMain (regs : Registers) : Registers :=
  { regs with bc := regs.bcAlt, bcAlt := regs.bc, de := regs.deAlt, deAlt := regs.de,
              hl := regs.hlAlt, hlAlt := regs.hl }

def exchangeDeHl (regs : Registers) : Registers := { regs with de := regs.hl, hl := regs.de }

@[simp] theorem flags_withFlags (r : Registers) (f : Flags) : (r.withFlags f).flags = f := by
  simp [withFlags, flags]

@[simp] theorem a_withFlags (r : Registers) (f : Flags) : (r.withFlags f).a = r.a := rfl

@[simp] theorem a_withA (r : Registers) (v : UInt8) : (r.withA v).a = v := rfl

@[simp] theorem flags_withA (r : Registers) (v : UInt8) : (r.withA v).flags = r.flags := rfl

@[simp] theorem index_withIndex (r : Registers) (x : IndexReg) (p : Pair) :
    (r.withIndex x p).index x = p := by cases x <;> rfl

@[simp] theorem get8_set8 (r : Registers) (reg : Reg8) (v : UInt8) :
    (r.set8 reg v).get8 reg = v := by
  rcases reg with _ | _ | _ | _ | _ | _ | _ | x | x <;> first | rfl | simp [set8, get8]

@[simp] theorem get16_set16 (r : Registers) (reg : Reg16) (w : UInt16) :
    (r.set16 reg w).get16 reg = w := by
  rcases reg with _ | _ | _ | _ | _ | x <;> simp [set16, get16]

end Registers
end Zx81.Z80
