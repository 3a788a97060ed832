import Zx81.Video.Palette

namespace Zx81.Video

/-- A picture, row by row. -/
structure Frame where
  width : Nat := 0
  height : Nat := 0
  pixels : Array UInt8 := #[]
  /-- The number of pictures before this one. -/
  number : Nat := 0
  /-- The second field of an interlaced pair. -/
  oddField : Bool := false
  deriving DecidableEq, Inhabited

namespace Frame

/-- The sample at a place; none outside the picture. -/
def pixel (f : Frame) (x y : Nat) : Option UInt8 :=
  if x < f.width ∧ y < f.height then f.pixels[y * f.width + x]? else none

def toArgb (f : Frame) : List UInt32 := f.pixels.toList.map argb

/-- The pixels cut into rows of the picture's width; the last row may be short. -/
def rows (f : Frame) : List (List UInt8) :=
  if f.width = 0 then []
  else
    (List.range ((f.pixels.size + f.width - 1) / f.width)).map fun i =>
      (f.pixels.extract (i * f.width) ((i + 1) * f.width)).toList

end Frame

structure Screen where
  latest : Frame := {}
  deriving DecidableEq, Inhabited

/-- Shows a picture and gives back the one shown before, whose pixels can be drawn over. -/
def Screen.publish (s : Screen) (f : Frame) : Screen × Frame := (⟨f⟩, s.latest)

end Zx81.Video
