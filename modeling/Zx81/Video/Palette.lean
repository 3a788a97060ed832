namespace Zx81.Video

/-- A set pixel. -/
def ink : UInt8 := 0

/-- A clear pixel. -/
def paper : UInt8 := 1

/-- The beam switched off. -/
def blank : UInt8 := 2

structure Rgb where
  red : UInt8
  green : UInt8
  blue : UInt8
  deriving DecidableEq

/-- The colour a sample stands for. -/
def palette (sample : UInt8) : Option Rgb :=
  if sample = ink then some ⟨0x00, 0x00, 0x00⟩
  else if sample = paper then some ⟨0xE8, 0xE8, 0xE8⟩
  else if sample = blank then some ⟨0x20, 0x20, 0x20⟩
  else none

/-- Alpha, red, green and blue in one word, the alpha opaque; zero for a sample without a
colour. -/
def argb (sample : UInt8) : UInt32 :=
  match palette sample with
  | some c => 0xFF000000 + 0x10000 * c.red.toUInt32 + 0x100 * c.green.toUInt32 + c.blue.toUInt32
  | none => 0

/-- Red, green and blue of a word, followed by an opaque alpha. -/
def channels (word : UInt32) : List UInt8 :=
  [(word >>> 16).toUInt8, (word >>> 8).toUInt8, word.toUInt8, 0xFF]

end Zx81.Video
