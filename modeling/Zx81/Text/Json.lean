import Zx81.Text.Hex

namespace Zx81.Text

inductive Json where
  | null
  | bool (b : Bool)
  | natural (n : Nat)
  /-- A number with a sign, a point or an exponent. -/
  | number
  /-- A text; `none` when a surrogate stands alone in it. -/
  | string (s : Option String)
  | array (elements : List Json)
  | object (members : List (Option String × Json))

namespace Json

/-- A reader gives what it read and the rest, or nothing when the text does not fit. -/
abbrev Reader (α : Type) := List Char → Option (α × List Char)

/-- The four characters that may stand between tokens. -/
def isBlank (c : Char) : Bool := c == ' ' || c == '\n' || c == '\t' || c == '\r'

def skipBlanks (s : List Char) : List Char := s.dropWhile isBlank

/-- An element of a text: a character, or a unit written as four hexadecimal digits. -/
inductive Piece where
  | char (c : Char)
  | unit (n : Nat)

def readUnit : Reader Piece
  | a :: b :: c :: d :: rest => do
    let n := (((← hexValue a) * 16 + (← hexValue b)) * 16 + (← hexValue c)) * 16 + (← hexValue d)
    return (.unit n, rest)
  | _ => none

def readEscape : Reader Piece
  | '"' :: rest => some (.char '"', rest)
  | '\\' :: rest => some (.char '\\', rest)
  | '/' :: rest => some (.char '/', rest)
  | 'b' :: rest => some (.char '\x08', rest)
  | 'f' :: rest => some (.char '\x0c', rest)
  | 'n' :: rest => some (.char '\n', rest)
  | 'r' :: rest => some (.char '\r', rest)
  | 't' :: rest => some (.char '\t', rest)
  | 'u' :: rest => readUnit rest
  | _ => none

/-- The pieces of a text up to its closing quote. The first argument bounds their number. -/
def readPieces : Nat → Reader (List Piece)
  | 0, _ => none
  | _ + 1, '"' :: rest => some ([], rest)
  | bound + 1, '\\' :: rest => do
    let (p, rest) ← readEscape rest
    let (ps, rest) ← readPieces bound rest
    return (p :: ps, rest)
  | bound + 1, c :: rest =>
    if c.toNat < 32 then none
    else do
      let (ps, rest) ← readPieces bound rest
      return (.char c :: ps, rest)
  | _ + 1, [] => none

/-- The characters of pieces; a high surrogate needs a low one after it. -/
def decodePieces : List Piece → Option (List Char)
  | [] => some []
  | .char c :: ps => (decodePieces ps).map (c :: ·)
  | .unit hi :: .unit lo :: ps =>
    if 0xD800 ≤ hi ∧ hi < 0xDC00 then
      if 0xDC00 ≤ lo ∧ lo < 0xE000 then
        (decodePieces ps).map
          (Char.ofNat (0x10000 + (hi - 0xD800) * 0x400 + (lo - 0xDC00)) :: ·)
      else none
    else if 0xDC00 ≤ hi ∧ hi < 0xE000 then none
    else (decodePieces (.unit lo :: ps)).map (Char.ofNat hi :: ·)
  | .unit n :: ps =>
    if 0xD800 ≤ n ∧ n < 0xE000 then none else (decodePieces ps).map (Char.ofNat n :: ·)

def readText : Reader (Option String) := fun s => do
  let (ps, rest) ← readPieces (s.length + 1) s
  return ((decodePieces ps).map String.ofList, rest)

def readDigits : Reader (List Char) := fun s =>
  match s.takeWhile Char.isDigit with
  | [] => none
  | ds => some (ds, s.dropWhile Char.isDigit)

/-- The whole part of a number: no zero before another digit. -/
def readWhole : Reader Nat := fun s => do
  let (ds, rest) ← readDigits s
  if ds.head? = some '0' ∧ ds.length ≠ 1 then none
  else return (ds.foldl (fun n d => 10 * n + (d.toNat - 48)) 0, rest)

def readFraction : Reader Bool
  | '.' :: s => do
    let (_, rest) ← readDigits s
    return (true, rest)
  | s => some (false, s)

def skipSign : List Char → List Char
  | '+' :: s => s
  | '-' :: s => s
  | s => s

def readExponent : Reader Bool
  | 'e' :: s | 'E' :: s => do
    let (_, rest) ← readDigits (skipSign s)
    return (true, rest)
  | s => some (false, s)

def readUnsigned : Reader Json := fun s => do
  let (n, s) ← readWhole s
  let (fraction, s) ← readFraction s
  let (exponent, s) ← readExponent s
  return (if fraction || exponent then .number else .natural n, s)

def readNumber : Reader Json
  | '-' :: s => do
    let (_, rest) ← readUnsigned s
    return (.number, rest)
  | s => readUnsigned s

mutual

/-- A value. The first argument bounds the number of calls. -/
def readValue : Nat → Reader Json
  | 0, _ => none
  | bound + 1, s =>
    match skipBlanks s with
    | 'n' :: 'u' :: 'l' :: 'l' :: rest => some (.null, rest)
    | 't' :: 'r' :: 'u' :: 'e' :: rest => some (.bool true, rest)
    | 'f' :: 'a' :: 'l' :: 's' :: 'e' :: rest => some (.bool false, rest)
    | '"' :: rest => do
      let (t, rest) ← readText rest
      return (.string t, rest)
    | '[' :: rest =>
      match skipBlanks rest with
      | ']' :: rest => some (.array [], rest)
      | rest => do
        let (xs, rest) ← readElements bound rest
        return (.array xs, rest)
    | '{' :: rest =>
      match skipBlanks rest with
      | '}' :: rest => some (.object [], rest)
      | rest => do
        let (ms, rest) ← readMembers bound rest
        return (.object ms, rest)
    | rest => readNumber rest

def readElements : Nat → Reader (List Json)
  | 0, _ => none
  | bound + 1, s => do
    let (x, rest) ← readValue bound s
    match skipBlanks rest with
    | ',' :: rest =>
      let (xs, rest) ← readElements bound rest
      return (x :: xs, rest)
    | ']' :: rest => return ([x], rest)
    | _ => none

def readMembers : Nat → Reader (List (Option String × Json))
  | 0, _ => none
  | bound + 1, s =>
    match skipBlanks s with
    | '"' :: rest => do
      let (key, rest) ← readText rest
      match skipBlanks rest with
      | ':' :: rest =>
        let (v, rest) ← readValue bound rest
        match skipBlanks rest with
        | ',' :: rest =>
          let (ms, rest) ← readMembers bound rest
          return ((key, v) :: ms, rest)
        | '}' :: rest => return ([(key, v)], rest)
        | _ => none
      | _ => none
    | _ => none

end

/-- The value of a text that holds one value and blanks. -/
def ofText? (s : String) : Option Json :=
  let cs := s.toList
  match readValue (2 * cs.length + 2) cs with
  | some (v, rest) => if (skipBlanks rest).isEmpty then some v else none
  | none => none

end Json
end Zx81.Text
