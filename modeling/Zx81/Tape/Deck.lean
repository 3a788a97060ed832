namespace Zx81

/-- The records still to be read, in order. -/
structure Tape where
  records : List (List UInt8) := []
  deriving DecidableEq

namespace Tape

/-- Bit 7, which marks the last character of a name. -/
def nameEnd : UInt8 := 0x80

/-- The codes of characters other than letters and digits. -/
def signs : List (Char × UInt8) :=
  [(' ', 0x00), ('"', 0x0B), ('$', 0x0D), (':', 0x0E), ('?', 0x0F), ('(', 0x10), (')', 0x11),
   ('>', 0x12), ('<', 0x13), ('=', 0x14), ('+', 0x15), ('-', 0x16), ('*', 0x17), ('/', 0x18),
   (';', 0x19), (',', 0x1A), ('.', 0x1B)]

/-- The machine's code of a character: that of a question mark when it has none. A lower-case
letter has the code of its capital. -/
def charCode (ch : Char) : UInt8 :=
  let c := ch.toUpper
  if '0' ≤ c ∧ c ≤ '9' then 0x1C + UInt8.ofNat (c.toNat - '0'.toNat)
  else if 'A' ≤ c ∧ c ≤ 'Z' then 0x26 + UInt8.ofNat (c.toNat - 'A'.toNat)
  else (signs.lookup c).getD 0x0F

/-- Marks the last of some codes; without any, the mark stands alone. -/
def markLast : List UInt8 → List UInt8
  | [] => [nameEnd]
  | [v] => [v ||| nameEnd]
  | v :: w :: rest => v :: markLast (w :: rest)

def encodeName (name : String) : List UInt8 := markLast (name.toList.map charCode)

/-- How many bytes of a record are its name: those up to the first with the mark, or none when
no byte has it. -/
def nameLength (record : List UInt8) : Nat :=
  match record.findIdx? (fun v => 0x80 ≤ v) with
  | some i => i + 1
  | none => 0

def push (t : Tape) (record : List UInt8) : Tape := ⟨t.records ++ [record]⟩

def pushProgram (t : Tape) (name : String) (image : List UInt8) : Tape :=
  t.push (encodeName name ++ image)

/-- Adds a program for the ZX80. Such a program has no name; the mark alone keeps its first byte
from being taken for one. -/
def pushZx80Program (t : Tape) (image : List UInt8) : Tape := t.push (nameEnd :: image)

def next? (t : Tape) : Option (List UInt8 × Tape) :=
  match t.records with
  | [] => none
  | record :: rest => some (record, ⟨rest⟩)

def eject (_ : Tape) : Tape := {}

def length (t : Tape) : Nat := t.records.length

def isEmpty (t : Tape) : Bool := t.records.isEmpty

end Tape
end Zx81
