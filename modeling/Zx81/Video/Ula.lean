import Zx81.Video.Scanline

namespace Zx81.Video

inductive PortEvent where
  | output (port : UInt16)
  | input (port : UInt16)
  deriving DecidableEq

/-- Bits on their way to the screen, and which of them are shown inverted. Both leave from
bit 15. -/
@[ext] structure ShiftRegister where
  bits : UInt16 := 0
  inverse : UInt16 := 0
  deriving DecidableEq, Inhabited

namespace ShiftRegister

def load (r : ShiftRegister) (bitmap : UInt8) (inverse : Bool) : ShiftRegister :=
  ⟨r.bits ||| bitmap.toUInt16, bif inverse then r.inverse ||| 0x00FF else r.inverse⟩

def next (r : ShiftRegister) : ShiftRegister := ⟨r.bits <<< 1, r.inverse <<< 1⟩

def colour (r : ShiftRegister) (lit : Bool) : UInt8 :=
  bif lit then (bif (r.bits ^^^ r.inverse) &&& 0x8000 == 0 then paper else ink) else blank

def shiftOut (lit : Bool) : Nat → ShiftRegister → Scanline → ShiftRegister × Scanline
  | 0, r, line => (r, line)
  | n + 1, r, line => shiftOut lit n r.next (line.push (r.colour lit))

end ShiftRegister

section Timer

variable {x : Int32} {n : Nat}

/-- A timer of 32 bits counts down exactly as long as it does not wrap. -/
theorem toInt_sub_ofNat (hn : n < 0x80000000) (h : -0x80000000 ≤ x.toInt - n) :
    (x - .ofNat n).toInt = x.toInt - n := by
  have hx := x.toInt_lt
  have hstep : (Int32.ofNat n).toInt = n := Int32.toInt_ofNat_of_lt hn
  rw [Int32.toInt_sub, hstep]
  exact Int.bmod_eq_of_le (by omega) (by omega)

theorem toInt_add_ofNat (hn : n < 0x80000000) (h : x.toInt + n < 0x80000000) :
    (x + .ofNat n).toInt = x.toInt + n := by
  have hx := x.le_toInt
  have hstep : (Int32.ofNat n).toInt = n := Int32.toInt_ofNat_of_lt hn
  rw [Int32.toInt_add, hstep]
  exact Int.bmod_eq_of_le (by omega) (by omega)

theorem toNatClampNeg_neg (h : -0x80000000 < x.toInt) :
    (-x).toNatClampNeg = (-x.toInt).toNat := by
  have hx := x.toInt_lt
  rw [Int32.toNatClampNeg, Int32.toInt_neg]
  congr 1
  exact Int.bmod_eq_of_le (by omega) (by omega)

end Timer

def firstRow : Fin 8 := ⟨0, by decide⟩

/-- The pixel row after a row; the last is followed by the first of the next cell. -/
def rowAfter (row : Fin 8) : Fin 8 := ⟨(row.val + 1) % 8, by omega⟩

structure Ula where
  /-- T-states in a line. -/
  lineLength : Nat
  shift : ShiftRegister := {}
  /-- The sync generator: on while a picture is sent. -/
  lit : Bool := false
  /-- The generator of a non-maskable interrupt at the end of each line. -/
  nmi : Bool := false
  /-- T-states left in the line; the instruction that ends it may take it below zero. -/
  counter : Int32 := .ofNat lineLength
  /-- By how much the last line was overrun: the next one starts with as much blanking. -/
  borrow : Nat := 0
  /-- The pixel row within a character cell. -/
  row : Fin 8 := firstRow
  /-- The port access not yet acted upon. -/
  event : Option PortEvent := none
  deriving DecidableEq

/-- The length of the pulse that the line timer makes, and the shortest that counts as sync. -/
def shortestSync : Nat := 10

namespace Ula

def reset (u : Ula) : Ula := { lineLength := u.lineLength }

def loadShift (u : Ula) (bitmap : UInt8) (inverse : Bool) : Ula :=
  { u with shift := u.shift.load bitmap inverse }

def latch (u : Ula) (e : PortEvent) : Ula := { u with event := some e }

def clearEvent (u : Ula) : Ula := { u with event := none }

/-- Begins a line with the time by which the last was overrun. -/
def carryIn (u : Ula) (line : Scanline) : Ula × Scanline :=
  ({ u with borrow := 0 }, line.fill (bif u.lit then paper else blank) (2 * u.borrow))

def emit (u : Ula) (line : Scanline) (tstates : Nat) : Ula × Scanline :=
  match ShiftRegister.shiftOut u.lit (2 * tstates) u.shift line with
  | (shift, line) => ({ u with shift }, line)

/-- The NMI generator after an output: the low byte of the port switches it. -/
def nmiAfter (u : Ula) (port : UInt16) : Bool :=
  if port.toUInt8 = 0xFD then false else if port.toUInt8 = 0xFE then true else u.nmi

/-- Acts upon the noted port access. Any output lights the picture; if it was dark the row
counter starts again, and a pulse so far ends the line. An input darkens it unless the NMI
generator is on. -/
def applyEvent (u : Ula) (line : Scanline) : Ula × Scanline :=
  match u.event with
  | some (.output port) =>
    let u' := { u with nmi := u.nmiAfter port, lit := true, event := none }
    if u.lit then (u', line)
    else
      ({ u' with row := firstRow }, if 0 < line.syncLength then line.endWith .vertical else line)
  | some (.input _) => ({ u with lit := u.lit && u.nmi, event := none }, line)
  | none => (u, line)

/-- Counts T-states against the line, and as sync while the picture is dark. -/
def count (u : Ula) (line : Scanline) (tstates : Nat) : Ula × Scanline :=
  ({ u with counter := u.counter - .ofNat tstates },
   if u.lit then line else line.addSync tstates)

def expired (u : Ula) : Bool := u.counter ≤ 0

theorem expired_iff {u : Ula} : u.expired ↔ u.counter.toInt ≤ 0 := by
  simp [expired, Int32.le_iff_toInt_le]

theorem expired_eq_false_iff {u : Ula} : u.expired = false ↔ 0 < u.counter.toInt := by
  simp [expired, Int32.lt_iff_toInt_lt]

def charge (u : Ula) (tstates : Nat) : Ula := { u with counter := u.counter - .ofNat tstates }

def alignment (position : Nat) : Nat := (4 - position % 4) % 4

/-- The wait of a non-maskable interrupt that ends a halt: it comes at a multiple of four from
the start of the line. -/
def haltWait (u : Ula) (line : Scanline) : Nat := alignment (line.length / 2 % u.lineLength)

def haltWait? (u : Ula) (line : Scanline) : Option Nat :=
  if u.lineLength = 0 then none else some (u.haltWait line)

/-- Ends an expired line and starts the timer again. In a lit picture without a pulse of the
program's own the line ends with the short pulse of the timer, is cut to its length, and the row
counter advances. -/
def endLine (u : Ula) (line : Scanline) : Ula × Scanline :=
  let u' :=
    { u with
      borrow := (-u.counter).toNatClampNeg, counter := u.counter + .ofNat u.lineLength }
  if u.lit ∧ line.syncLength = 0 then
    ({ u' with row := rowAfter u.row },
     { line.truncate (2 * u.lineLength) with syncLength := shortestSync, sync := .horizontal })
  else (u', line)

def restartLine (u : Ula) : Ula := { u with counter := .ofNat u.lineLength, borrow := 0 }

end Ula
end Zx81.Video
