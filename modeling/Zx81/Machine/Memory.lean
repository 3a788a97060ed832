import Zx81.Config.Basic
import Zx81.Ram

namespace Zx81

structure Memory where
  ram : Ram := .zero
  romTop : UInt16
  ramTop : UInt16
  protectRom : Bool
  shadowRom : Bool

/-- Why a ROM image does not fill the ROM. -/
inductive LoadError where
  | incomplete (expected loaded : Nat)
  deriving DecidableEq

def LoadError.message : LoadError → String
  | incomplete expected loaded =>
    "ROM image too short: loaded " ++ Nat.repr loaded ++ " of " ++ Nat.repr expected ++ " bytes"

namespace Memory

/-- The last address at which the ROM may repeat. -/
def shadowEnd : UInt16 := 0x3FFF

def ofConfig (c : Config) : Memory where
  romTop := c.romTop
  ramTop := c.ramTop
  protectRom := c.protectRom
  shadowRom := c.shadowRom

/-- An address folded onto the range below the top of RAM. -/
def foldRam (m : Memory) (a : UInt16) : UInt16 := if m.ramTop < a then a &&& m.ramTop else a

/-- An address in the repeated ROM folded onto the ROM. -/
def foldRom (m : Memory) (a : UInt16) : UInt16 :=
  if m.shadowRom ∧ m.romTop < a ∧ a ≤ shadowEnd then a &&& m.romTop else a

def decode (m : Memory) (a : UInt16) : UInt16 := m.foldRom (m.foldRam a)

def isProtected (m : Memory) (cell : UInt16) : Bool := m.protectRom && cell ≤ m.romTop

def read (m : Memory) (a : UInt16) : UInt8 := m.ram.get (m.decode a)

def mapRam (f : Ram → Ram) : Memory → Memory
  | ⟨ram, romTop, ramTop, protectRom, shadowRom⟩ =>
    ⟨f ram, romTop, ramTop, protectRom, shadowRom⟩

def write (m : Memory) (a : UInt16) (v : UInt8) : Memory :=
  let cell := m.decode a
  if m.isProtected cell then m else m.mapRam (·.set cell v)

/-- Stores bytes in cells, without folding and without protection. -/
def load (m : Memory) (a : UInt16) (bytes : List UInt8) : Memory := m.mapRam (·.load a bytes)

def romSize (m : Memory) : Nat := m.romTop.toNat + 1

/-- Stores a ROM image from address 0 on; what does not fit is left out. A short image is stored
too, and reported. -/
def loadRom (m : Memory) (image : List UInt8) : Option LoadError × Memory :=
  let size := m.romSize
  let image := image.take size
  (if image.length < size then some (.incomplete size image.length) else none, m.load 0 image)

def peek (m : Memory) (a : UInt16) (n : Nat) : List UInt8 :=
  (List.range n).map fun i => m.read (a + UInt16.ofNat i)

theorem read_mapRam (m : Memory) (f : Ram → Ram) (a : UInt16) :
    (m.mapRam f).read a = (f m.ram).get (m.decode a) := rfl

@[simp] theorem decode_write (m : Memory) (a b : UInt16) (v : UInt8) :
    (m.write a v).decode b = m.decode b := by
  unfold write
  simp only
  split
  · rfl
  · rfl

@[simp] theorem isProtected_write (m : Memory) (a cell : UInt16) (v : UInt8) :
    (m.write a v).isProtected cell = m.isProtected cell := by
  unfold write
  simp only
  split
  · rfl
  · rfl

theorem read_write (m : Memory) (a b : UInt16) (v : UInt8) :
    (m.write a v).read b =
      if m.decode a = m.decode b ∧ m.isProtected (m.decode a) = false then v else m.read b := by
  by_cases h : m.isProtected (m.decode a)
  · simp [write, h]
  · simp only [write, h, Bool.false_eq_true, if_false, read_mapRam, Ram.get_set, and_true]
    rfl

end Memory
end Zx81
