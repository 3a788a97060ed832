import Zx81.Bus.Basic
import Zx81.Keyboard.Matrix
import Zx81.Machine.Memory
import Zx81.Video.Ula

namespace Zx81

open Video (Ula Scanline PortEvent)

/-- A board with a character set in its own memory. -/
structure QsBoard where
  /-- The board's character set replaces the one in ROM. -/
  enabled : Bool := false
  /-- The bitmaps of 64 characters, eight rows each. -/
  font : Vector UInt8 512 := .replicate 512 0
  deriving DecidableEq

namespace QsBoard

def isControl (a : UInt16) : Bool := 0x8000 ≤ a && a < 0x8400

/-- The place in the character set that an address writes to. -/
def fontIndex? (a : UInt16) : Option (Fin 512) :=
  if h : 0x8400 ≤ a.toNat ∧ a.toNat < 0x8600 then some ⟨a.toNat - 0x8400, by omega⟩ else none

def write : QsBoard → UInt16 → UInt8 → QsBoard
  | ⟨enabled, font⟩, a, v =>
    ⟨enabled ^^ isControl a,
      match fontIndex? a with
      | some i => font.set i v
      | none => font⟩

def bitmap (b : QsBoard) (character : Fin 64) (row : Fin 8) : UInt8 :=
  getElem b.font (8 * character.val + row.val) (by omega)

end QsBoard

structure Wiring where
  displayStart : UInt16
  charGenerator : CharGenerator
  ntsc : Bool
  deriving DecidableEq

structure Board where
  memory : Memory
  ula : Ula
  keyboard : Keyboard := {}
  qs : QsBoard := {}
  wiring : Wiring

namespace Board

def ofConfig (c : Config) : Board where
  memory := .ofConfig c
  ula := { lineLength := c.lineTstates }
  wiring := ⟨c.displayStart, c.charGenerator, c.ntsc⟩

def hasQs (b : Board) : Bool := b.wiring.charGenerator = .qs

def mapMemory (f : Memory → Memory) : Board → Board
  | ⟨memory, ula, keyboard, qs, wiring⟩ => ⟨f memory, ula, keyboard, qs, wiring⟩

def mapUla (f : Ula → Ula) : Board → Board
  | ⟨memory, ula, keyboard, qs, wiring⟩ => ⟨memory, f ula, keyboard, qs, wiring⟩

def drawLine (f : Ula → Scanline → Ula × Scanline) : Board → Scanline → Board × Scanline
  | ⟨memory, ula, keyboard, qs, wiring⟩, line =>
    match f ula line with
    | (ula, line) => (⟨memory, ula, keyboard, qs, wiring⟩, line)

def mapKeyboard (f : Keyboard → Keyboard) : Board → Board
  | ⟨memory, ula, keyboard, qs, wiring⟩ => ⟨memory, ula, f keyboard, qs, wiring⟩

/-- Whether a byte of the display file is an instruction and not a character. -/
def isInstruction (v : UInt8) : Bool := v.toNat.testBit 6

def character (code : UInt8) : Fin 64 := ⟨code.toNat % 64, by omega⟩

/-- Bit 7 of a character: shown inverted, or the second half of 128 characters. -/
def isInverse (code : UInt8) : Bool := 0x80 ≤ code

/-- The page of a character set, from the upper byte of a refresh address; its lowest bit is not
wired. -/
def fontPage (refresh : UInt16) : Nat := refresh.toNat / 512 * 512

def fontAddress (refresh : UInt16) (n : Nat) (row : Fin 8) : UInt16 :=
  UInt16.ofNat (fontPage refresh ||| (8 * n) ||| row.val)

/-- The bitmap row shown for a character, and whether it is inverted. A board with its own
character set comes first. Below 40 in I the set is in ROM; above, it has 128 characters if a
board for them is there, and otherwise the row is the byte at the refresh address itself. -/
def bitmap (b : Board) (code : UInt8) (refresh : UInt16) : UInt8 × Bool :=
  let row := b.ula.row
  let n := (character code).val
  if b.hasQs && b.qs.enabled then
    (b.qs.bitmap (character code) row, isInverse code)
  else if refresh < 0x4000 then
    (b.memory.read (fontAddress refresh n row), isInverse code)
  else if b.wiring.charGenerator = .chr128 then
    (b.memory.read (fontAddress refresh (if isInverse code then 64 + n else n) row), false)
  else (b.memory.read refresh, isInverse code)

/-- An opcode fetched from the display file. The processor is given a NOP for a character, and the
video chip its bitmap row. -/
def fetchDisplay (b : Board) (a refresh : UInt16) : UInt8 × Board :=
  let code := b.memory.read (a &&& 0x7FFF)
  if isInstruction code then (code, b)
  else
    let (bitmap, inverse) := b.bitmap code refresh
    (0, b.mapUla (·.loadShift bitmap inverse))

def fetch (b : Board) (a refresh : UInt16) : UInt8 × Board :=
  if b.wiring.displayStart ≤ a then b.fetchDisplay a refresh else (b.memory.read a, b)

/-- A write. The character set board takes the writes to its own memory. -/
def write (a : UInt16) (v : UInt8) : Board → Board
  | ⟨memory, ula, keyboard, qs, wiring⟩ =>
    if wiring.charGenerator = .qs then
      if (QsBoard.fontIndex? a).isSome then ⟨memory, ula, keyboard, qs.write a v, wiring⟩
      else ⟨memory.write a v, ula, keyboard, qs.write a v, wiring⟩
    else ⟨memory.write a v, ula, keyboard, qs, wiring⟩

/-- Bit 5 of a keyboard port is not connected; bit 6 tells a 50 Hz machine. -/
def portBits (b : Board) : UInt8 := if b.wiring.ntsc then 0x20 else 0x60

/-- A port read. An even port reads the keyboard and is seen by the video chip. -/
def input (b : Board) (port : UInt16) : UInt8 × Board :=
  if port.toNat % 2 = 1 then (0xFF, b)
  else
    (b.keyboard.read (port / 256).toUInt8 ||| b.portBits, b.mapUla (·.latch (.input port)))

instance : Bus Board where
  read a b := (b.memory.read a, b)
  write := write
  fetch a refresh b := b.fetch a refresh
  input port b := b.input port
  output port _ b := b.mapUla (·.latch (.output port))
  memoryWait _ _ _ b := (0, b)
  portWait _ _ _ b := (0, b)

end Board
end Zx81
