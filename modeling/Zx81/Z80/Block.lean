import Zx81.Z80.Operand

namespace Zx81.Z80

def Direction.move (dir : Direction) (w : UInt16) : UInt16 :=
  match dir with
  | .forward => w + 1
  | .backward => w - 1

def Direction.moveByte (dir : Direction) (v : UInt8) : UInt8 :=
  match dir with
  | .forward => v + 1
  | .backward => v - 1

namespace Block

/-- Flags of a transfer: bits 3 and 5 are bits 3 and 1 of the byte plus the accumulator, and
parity tells that the count is not used up. -/
def transferFlags (f : Flags) (a value : UInt8) (more : Bool) : Flags :=
  let n := value + a
  { f with bit5 := testBit n 1, halfCarry := false, bit3 := testBit n 3,
           parity := more, subtract := false }

/-- Flags of a comparison: those of the difference, bits 3 and 5 being bits 3 and 1 of the
difference less the half carry, and parity telling that the count is not used up. -/
def compareFlags (f : Flags) (a value : UInt8) (more : Bool) : Flags :=
  let diff := a - value
  let half := decide (a.toNat % 16 < value.toNat % 16)
  let n := bif half then diff - 1 else diff
  { sign := testBit diff 7, zero := diff == 0, bit5 := testBit n 1, halfCarry := half,
    bit3 := testBit n 3, parity := more, subtract := true, carry := f.carry }

/-- Flags of a port loop, from the count left, the byte moved, and that byte plus the low byte
that the loop steps. -/
def portFlags (b value n : UInt8) : Flags :=
  { Flags.ofResult b with
    halfCarry := n < value
    parity := Flags.evenParity ((n &&& 0x07) ^^^ b)
    subtract := testBit value 7
    carry := n < value }

variable {σ : Type} [Bus σ]

def again (address : UInt16) : Exec σ Unit := do
  internal address 5
  update fun r => { r with pc := r.pc - 2 }

/-- One step of `LDI`, `LDD`, `LDIR` and `LDDR`. -/
def transfer (dir : Direction) (repeated : Bool) : Exec σ Unit := do
  let hl ← inspect (·.hl.word)
  let de ← inspect (·.de.word)
  let value ← readByte hl
  writeByte de value
  internal de 2
  let bc := (← inspect (·.bc.word)) - 1
  update fun r =>
    { r with bc := .ofWord bc, hl := .ofWord (dir.move hl), de := .ofWord (dir.move de) }
      |>.withFlags (transferFlags r.flags r.a value (bc != 0))
  if repeated && bc != 0 then
    again de

/-- One step of `CPI`, `CPD`, `CPIR` and `CPDR`. -/
def compare (dir : Direction) (repeated : Bool) : Exec σ Unit := do
  let hl ← inspect (·.hl.word)
  let value ← readByte hl
  internal hl 5
  let bc := (← inspect (·.bc.word)) - 1
  let a ← inspect (·.a)
  update fun r =>
    { r with bc := .ofWord bc, hl := .ofWord (dir.move hl) }
      |>.withFlags (compareFlags r.flags a value (bc != 0))
  if repeated && bc != 0 && a != value then
    again hl

/-- One step of `INI`, `IND`, `INIR` and `INDR`. The port is read with the count not yet
reduced. -/
def input (dir : Direction) (repeated : Bool) : Exec σ Unit := do
  internalRefresh 1
  let hl ← inspect (·.hl.word)
  let value ← readPort (← inspect (·.bc.word))
  writeByte hl value
  let b := (← inspect (·.bc.hi)) - 1
  update fun r =>
    { r with bc := { r.bc with hi := b }, hl := .ofWord (dir.move hl) }
      |>.withFlags (portFlags b value (value + dir.moveByte r.bc.lo))
  if repeated && b != 0 then
    again hl

/-- One step of `OUTI`, `OUTD`, `OTIR` and `OTDR`. The port is written with the count already
reduced. -/
def output (dir : Direction) (repeated : Bool) : Exec σ Unit := do
  internalRefresh 1
  let hl ← inspect (·.hl.word)
  let value ← readByte hl
  let b := (← inspect (·.bc.hi)) - 1
  update fun r => { r with bc := { r.bc with hi := b } }
  let port ← inspect (·.bc.word)
  writePort port value
  let next := Pair.ofWord (dir.move hl)
  update fun r =>
    { r with hl := next } |>.withFlags (portFlags b value (value + next.lo))
  if repeated && b != 0 then
    again port

def perform (op : BlockOp) (dir : Direction) (repeated : Bool) : Exec σ Unit :=
  match op with
  | .transfer => transfer dir repeated
  | .compare => compare dir repeated
  | .input => input dir repeated
  | .output => output dir repeated

end Block
end Zx81.Z80
