namespace Zx81.Text

def hexDigit (n : Nat) : Char := if n < 10 then Char.ofNat (48 + n) else Char.ofNat (87 + n)

def hexValue (c : Char) : Option Nat :=
  if '0' ≤ c ∧ c ≤ '9' then some (c.toNat - 48)
  else if 'a' ≤ c ∧ c ≤ 'f' then some (c.toNat - 87)
  else if 'A' ≤ c ∧ c ≤ 'F' then some (c.toNat - 55)
  else none

/-- The lowest `width` hexadecimal digits of a number, the highest first. -/
def hexDigits (n : Nat) : Nat → List Char
  | 0 => []
  | width + 1 => hexDigits (n / 16) width ++ [hexDigit (n % 16)]

/-- A number at a width, in lower case. -/
def hex (n width : Nat) : String := .ofList (hexDigits n width)

def hex2 (v : UInt8) : String := hex v.toNat 2

def hex4 (w : UInt16) : String := hex w.toNat 4

def hexLiteral (n width : Nat) : String :=
  "0x" ++ .ofList ((hexDigits n width).map Char.toUpper)

def hexOfBytes (bytes : List UInt8) : String := bytes.foldl (fun s v => s ++ hex2 v) ""

/-- The bytes that pairs of digits stand for. -/
def bytesOfHex : List Char → Option (List UInt8)
  | [] => some []
  | [_] => none
  | a :: b :: rest =>
    match hexValue a, hexValue b, bytesOfHex rest with
    | some hi, some lo, some bytes => some (UInt8.ofNat (16 * hi + lo) :: bytes)
    | _, _, _ => none

end Zx81.Text
