import Zx81.Keyboard.Key

namespace Zx81

/-- Which keys are held down. Key `bit` of row `row` is at place `5 * row + bit`. -/
structure Keyboard where
  held : Vector Bool 40 := .replicate 40 false
  deriving DecidableEq

namespace Keyboard

/-- Whether a key is held down. There is no key outside the eight rows of five. -/
def isHeld (k : Keyboard) (row bit : Nat) : Bool :=
  if h : row < 8 ∧ bit < 5 then getElem k.held (5 * row + bit) (by omega) else false

def set (k : Keyboard) (row bit : Nat) (pressed : Bool) : Keyboard :=
  if h : row < 8 ∧ bit < 5 then ⟨k.held.set (5 * row + bit) pressed (by omega)⟩ else k

/-- Presses or releases a key by its name. -/
def setKey (k : Keyboard) (key : Key) (pressed : Bool) : Keyboard :=
  k.set key.position.1 key.position.2 pressed

def releaseAll (_ : Keyboard) : Keyboard := {}

/-- Whether key `bit` is held down in one of the rows that an address selects; a clear bit
selects its row. -/
def column (k : Keyboard) (high : UInt8) (bit : Nat) : Bool :=
  (List.range 8).any fun row => !high.toNat.testBit row && k.isHeld row bit

/-- The five keys of the selected rows, a bit clear for a key that is held down. -/
def read (k : Keyboard) (high : UInt8) : UInt8 :=
  (bif k.column high 0 then 0 else 0x01) ||| (bif k.column high 1 then 0 else 0x02) |||
  (bif k.column high 2 then 0 else 0x04) ||| (bif k.column high 3 then 0 else 0x08) |||
  (bif k.column high 4 then 0 else 0x10)

def rows (k : Keyboard) : List UInt8 :=
  (List.range 8).map fun row => k.read (~~~UInt8.ofNat (1 <<< row))

theorem isHeld_set (k : Keyboard) (row bit row' bit' : Nat) (pressed : Bool) :
    (k.set row bit pressed).isHeld row' bit' =
      if row = row' ∧ bit = bit' ∧ row < 8 ∧ bit < 5 then pressed else k.isHeld row' bit' := by
  unfold set isHeld
  by_cases h : row < 8 ∧ bit < 5 <;> by_cases h' : row' < 8 ∧ bit' < 5 <;> simp [h, h']
  · rw [Vector.getElem_set]
    by_cases e : row = row' ∧ bit = bit'
    · simp [e]
    · rw [if_neg e, if_neg (by omega)]
  · omega

theorem isHeld_setKey (k : Keyboard) (key : Key) (pressed : Bool) (row bit : Nat) :
    (k.setKey key pressed).isHeld row bit =
      if key.IsAt row bit then pressed else k.isHeld row bit := by
  rw [setKey, isHeld_set]
  by_cases hat : key.IsAt row bit
  · rw [if_pos ⟨hat.1, hat.2, Fin.isLt _, Fin.isLt _⟩, if_pos hat]
  · rw [if_neg fun h => hat ⟨h.1, h.2.1⟩, if_neg hat]

@[simp] theorem isHeld_releaseAll (k : Keyboard) (row bit : Nat) :
    k.releaseAll.isHeld row bit = false := by
  simp [releaseAll, isHeld]

end Keyboard
end Zx81
