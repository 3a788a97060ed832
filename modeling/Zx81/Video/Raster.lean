import Zx81.Video.Frame
import Zx81.Video.Ula

namespace Zx81.Video

/-- Samples the beam may pass the right edge before it turns by itself, and by how much a sync
may come early and still end the row. -/
def syncTolerance : Nat := 64

/-- Rows beyond the nominal height of a picture. -/
def extraRows : Nat := 18

/-- Rows before the nominal end of a picture from which a vertical sync is accepted. -/
def earlyRows : Nat := 29

/-- A sync longer than this, in T-states, is vertical. -/
def longestLineSync : Nat := 350

/-- The largest difference between the lengths of two vertical syncs of one interlaced pair. -/
def fieldTolerance : Nat := 8

structure Geometry where
  width : Nat
  height : Nat
  /-- The last row in which a vertical sync is ignored. -/
  lastLockedRow : Nat
  deriving DecidableEq

namespace Geometry

def ofTiming (tstatesPerLine linesPerFrame : Nat) : Geometry :=
  ⟨2 * tstatesPerLine, linesPerFrame + extraRows, linesPerFrame - earlyRows⟩

def area (g : Geometry) : Nat := g.width * g.height

end Geometry

def blankFrom (pixels : Array UInt8) (start : Nat) : Nat → Array UInt8
  | 0 => pixels
  | n + 1 => blankFrom (pixels.setIfInBounds start blank) (start + 1) n

structure Beam where
  x : Nat
  y : Nat
  pixels : Array UInt8
  deriving DecidableEq

namespace Beam

def paint (g : Geometry) : Beam → UInt8 → Beam
  | ⟨x, y, pixels⟩, colour =>
    ⟨x, y,
      if x < g.width ∧ y < g.height then pixels.setIfInBounds (y * g.width + x) colour
      else pixels⟩

/-- Moves one place to the right, or to the next row when the line has run on for too long. -/
def move (g : Geometry) : Beam → Beam
  | ⟨x, y, pixels⟩ =>
    if x + 1 < g.width + syncTolerance then ⟨x + 1, y, pixels⟩ else ⟨0, y + 1, pixels⟩

/-- Lays samples down until one moves the beam off the lower edge. -/
def sweep (g : Geometry) : List UInt8 → Beam → Beam
  | [], b => b
  | colour :: rest, b =>
    let b := (b.paint g colour).move g
    if b.y < g.height then sweep g rest b else b

/-- Ends the row under the beam at a sync, with its rest blank. -/
def nextRow (g : Geometry) : Beam → Beam
  | ⟨x, y, pixels⟩ =>
    ⟨0, y + 1,
      if y < g.height then blankFrom pixels (y * g.width + x) (g.width - x) else pixels⟩

def blankRest (g : Geometry) : Beam → Array UInt8
  | ⟨x, y, pixels⟩ =>
    let start := min (y * g.width + x) pixels.size
    blankFrom pixels start (pixels.size - start)

end Beam

/-- Which field of an interlaced pair is drawn, told from the lengths of vertical syncs. -/
structure Interlace where
  enabled : Bool := false
  odd : Bool := false
  lastSync : Nat := 0
  deriving DecidableEq, Inhabited

namespace Interlace

def enable (i : Interlace) (enabled : Bool) : Interlace :=
  { i with enabled, odd := enabled && i.odd }

def distance (m n : Nat) : Nat := (m - n) + (n - m)

/-- After a picture that a sync of some length ended: two syncs of about one length belong to a
pair, and the fields alternate; otherwise the next field is the first. -/
def next (i : Interlace) (syncLength : Nat) : Interlace :=
  { i with
    odd := if i.enabled then distance syncLength i.lastSync ≤ fieldTolerance && !i.odd else i.odd
    lastSync := syncLength }

end Interlace

structure Raster where
  geometry : Geometry
  beam : Beam
  /-- Number and field that the pixels under the beam were last shown with. -/
  reusedNumber : Nat := 0
  reusedField : Bool := false
  screen : Screen := {}
  /-- Completed pictures. -/
  frames : Nat := 0
  interlace : Interlace := {}

namespace Raster

def new (tstatesPerLine linesPerFrame : Nat) : Raster :=
  let g := Geometry.ofTiming tstatesPerLine linesPerFrame
  { geometry := g, beam := ⟨0, 0, Array.replicate g.area blank⟩ }

def current (r : Raster) : Frame where
  width := r.geometry.width
  height := r.geometry.height
  pixels := r.beam.pixels
  number := r.reusedNumber
  oddField := r.reusedField

def setInterlaced (r : Raster) (enabled : Bool) : Raster :=
  { r with interlace := r.interlace.enable enabled }

/-- The pixels to draw the next picture over: those of an older picture of the same size, or
blank ones. -/
def reusable (g : Geometry) (pixels : Array UInt8) : Array UInt8 :=
  if pixels.size = g.area then pixels else Array.replicate g.area blank

def completeFrame : Raster → Nat → Raster
  | ⟨g, beam, _, _, screen, frames, interlace⟩, syncLength =>
    match screen.publish ⟨g.width, g.height, beam.blankRest g, frames, interlace.odd⟩ with
    | (screen, old) =>
      ⟨g, ⟨0, 0, reusable g old.pixels⟩, old.number, old.oddField, screen, frames + 1,
        interlace.next syncLength⟩

def validSync (line : Scanline) : Bool := line.hasSync && shortestSync ≤ line.syncLength

/-- Moves the beam over a line: its samples, and the end of the row at a sync that comes late
enough. -/
def sweepLine (g : Geometry) (line : Scanline) (b : Beam) : Beam :=
  let b := b.sweep g line.samples.toList
  if validSync line && g.width - syncTolerance ≤ b.x then b.nextRow g else b

def completes (g : Geometry) (line : Scanline) (y : Nat) : Bool :=
  g.height ≤ y || (validSync line && longestLineSync < line.syncLength && g.lastLockedRow < y)

/-- Draws a line. The answer tells whether it completed a picture. -/
def draw : Raster → Scanline → Bool × Raster
  | ⟨g, beam, number, field, screen, frames, interlace⟩, line =>
    let beam := sweepLine g line beam
    let done := completes g line beam.y
    let r : Raster := ⟨g, beam, number, field, screen, frames, interlace⟩
    (done, if done then r.completeFrame line.syncLength else r)

end Raster
end Zx81.Video
