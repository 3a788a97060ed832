namespace Zx81

/-- A key. Digits are named with a leading n. -/
inductive Key where
  | shift | z | x | c | v
  | a | s | d | f | g
  | q | w | e | r | t
  | n1 | n2 | n3 | n4 | n5
  | n0 | n9 | n8 | n7 | n6
  | p | o | i | u | y
  | newLine | l | k | j | h
  | space | period | m | n | b
  deriving DecidableEq

namespace Key

/-- The row of a key and its bit in the row. -/
def position : Key → Fin 8 × Fin 5
  | shift => (0, 0) | z => (0, 1) | x => (0, 2) | c => (0, 3) | v => (0, 4)
  | a => (1, 0) | s => (1, 1) | d => (1, 2) | f => (1, 3) | g => (1, 4)
  | q => (2, 0) | w => (2, 1) | e => (2, 2) | r => (2, 3) | t => (2, 4)
  | n1 => (3, 0) | n2 => (3, 1) | n3 => (3, 2) | n4 => (3, 3) | n5 => (3, 4)
  | n0 => (4, 0) | n9 => (4, 1) | n8 => (4, 2) | n7 => (4, 3) | n6 => (4, 4)
  | p => (5, 0) | o => (5, 1) | i => (5, 2) | u => (5, 3) | y => (5, 4)
  | newLine => (6, 0) | l => (6, 1) | k => (6, 2) | j => (6, 3) | h => (6, 4)
  | space => (7, 0) | period => (7, 1) | m => (7, 2) | n => (7, 3) | b => (7, 4)

def IsAt (key : Key) (row bit : Nat) : Prop := key.position.1 = row ∧ key.position.2 = bit

instance (key : Key) (row bit : Nat) : Decidable (key.IsAt row bit) :=
  inferInstanceAs (Decidable (_ ∧ _))

def name : Key → String
  | shift => "shift" | z => "z" | x => "x" | c => "c" | v => "v"
  | a => "a" | s => "s" | d => "d" | f => "f" | g => "g"
  | q => "q" | w => "w" | e => "e" | r => "r" | t => "t"
  | n1 => "1" | n2 => "2" | n3 => "3" | n4 => "4" | n5 => "5"
  | n0 => "0" | n9 => "9" | n8 => "8" | n7 => "7" | n6 => "6"
  | p => "p" | o => "o" | i => "i" | u => "u" | y => "y"
  | newLine => "newline" | l => "l" | k => "k" | j => "j" | h => "h"
  | space => "space" | period => "." | m => "m" | n => "n" | b => "b"

def all : List Key :=
  [shift, z, x, c, v,
   a, s, d, f, g,
   q, w, e, r, t,
   n1, n2, n3, n4, n5,
   n0, n9, n8, n7, n6,
   p, o, i, u, y,
   newLine, l, k, j, h,
   space, period, m, n, b]

/-- The keys that type a character without shift. -/
def plain : List (Char × Key) :=
  [('A', a), ('B', b), ('C', c), ('D', d), ('E', e), ('F', f), ('G', g), ('H', h), ('I', i),
   ('J', j), ('K', k), ('L', l), ('M', m), ('N', n), ('O', o), ('P', p), ('Q', q), ('R', r),
   ('S', s), ('T', t), ('U', u), ('V', v), ('W', w), ('X', x), ('Y', y), ('Z', z),
   ('0', n0), ('1', n1), ('2', n2), ('3', n3), ('4', n4), ('5', n5), ('6', n6), ('7', n7),
   ('8', n8), ('9', n9), (' ', space), ('.', period), ('\n', newLine)]

/-- The keys that type a character together with shift. -/
def shifted : List (Char × Key) :=
  [('"', p), (')', o), ('(', i), ('$', u), (':', z), (';', x), ('?', c), ('/', v), ('-', j),
   ('+', k), ('=', l), ('>', m), ('<', n), ('*', b), (',', period)]

/-- The keys to hold down together to type a character; none for one that cannot be typed. A
lower-case letter types as its capital. -/
def forChar (ch : Char) : List Key :=
  match plain.lookup ch.toUpper, shifted.lookup ch.toUpper with
  | some key, _ => [key]
  | none, some key => [shift, key]
  | none, none => []

end Key
end Zx81
