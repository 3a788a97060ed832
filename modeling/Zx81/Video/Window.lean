import Zx81.Video.Frame

namespace Zx81.Video

inductive Border where
  | none
  | small
  | normal
  | large
  /-- The whole raster. -/
  | full
  deriving DecidableEq

/-- The border on each side, in pixels; none for the whole raster. -/
def Border.margin? : Border → Option Nat
  | none => some 0
  | small => some 8
  | normal => some 32
  | large => some 48
  | full => Option.none

def Border.name : Border → String
  | none => "none"
  | small => "small"
  | normal => "normal"
  | large => "large"
  | full => "full"

def Border.all : List Border := [none, small, normal, large, full]

structure Window where
  x : Nat
  y : Nat
  width : Nat
  height : Nat
  deriving DecidableEq

namespace Window

def characterLeft : Nat := 74

/-- The upper edge of the characters, for 60 Hz or 50 Hz. -/
def characterTop (ntsc : Bool) : Nat := if ntsc then 32 else 56

def characterWidth : Nat := 256

def characterHeight : Nat := 192

/-- A rectangle around the characters, within the raster. -/
def around (margin : Nat) (ntsc : Bool) (rasterWidth rasterHeight : Nat) : Window :=
  let x := characterLeft - margin
  let y := characterTop ntsc - margin
  ⟨x, y, min (characterWidth + 2 * margin) (rasterWidth - x),
    min (characterHeight + 2 * margin) (rasterHeight - y)⟩

def new (border : Border) (ntsc : Bool) (rasterWidth rasterHeight : Nat) : Window :=
  match border.margin? with
  | some margin => around margin ntsc rasterWidth rasterHeight
  | Option.none => ⟨0, 0, rasterWidth, rasterHeight⟩

end Window

inductive CaptureError where
  | emptyWindow
  deriving DecidableEq

def CaptureError.message : CaptureError → String
  | emptyWindow => "empty capture window"

namespace Frame

/-- The word for a place, from the words of all pixels; zero outside the picture. -/
def wordAt (f : Frame) (words : Array UInt32) (x y : Nat) : UInt32 :=
  if x < f.width ∧ y < f.height then words.getD (y * f.width + x) 0 else 0

/-- The pixels in a window as red, green, blue and alpha, row by row; places outside the picture
are black. -/
def crop (f : Frame) (w : Window) : List UInt8 :=
  let words := f.toArgb.toArray
  (List.range' w.y w.height).flatMap fun y =>
    (List.range' w.x w.width).flatMap fun x => channels (f.wordAt words x y)

/-- The pixels of `crop`, for a window that is not empty. -/
def capture (f : Frame) (w : Window) : Except CaptureError (List UInt8) :=
  if w.width = 0 ∨ w.height = 0 then .error .emptyWindow else .ok (f.crop w)

end Frame
end Zx81.Video
