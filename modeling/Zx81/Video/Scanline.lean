import Zx81.Video.Palette

namespace Zx81.Video

inductive Sync where
  /-- Nothing yet. -/
  | absent
  /-- The pulse that the line timer makes. -/
  | horizontal
  /-- A pulse that a program made. -/
  | vertical
  deriving DecidableEq, Inhabited

def Sync.name : Sync → String
  | absent => "none"
  | horizontal => "horizontal"
  | vertical => "vertical"

def Sync.all : List Sync := [absent, horizontal, vertical]

/-- The samples drawn so far and the sync seen so far. The sync outlives the samples, so that a
long pulse can go on from one line to the next. -/
structure Scanline where
  samples : Array UInt8 := #[]
  /-- T-states of the pulse. -/
  syncLength : Nat := 0
  sync : Sync := .absent
  deriving DecidableEq, Inhabited

namespace Scanline

def capacity : Nat := 4096

/-- The number of samples at which a line is cut even without a sync. -/
def cutoff : Nat := 4000

/-- The longest pulse that is told from a longer one. -/
def longestSync : Nat := 0xFFFFFFFF

def length (line : Scanline) : Nat := line.samples.size

/-- Appends a sample; a full line stays as it is. -/
def push : Scanline → UInt8 → Scanline
  | ⟨samples, syncLength, sync⟩, colour =>
    ⟨if samples.size < capacity then samples.push colour else samples, syncLength, sync⟩

/-- Appends samples of one colour, as many as fit. -/
def fill (line : Scanline) (colour : UInt8) (n : Nat) : Scanline :=
  { line with
    samples := line.samples ++ Array.replicate (min n (capacity - line.samples.size)) colour }

def truncate (line : Scanline) (n : Nat) : Scanline :=
  { line with samples := line.samples.take n }

/-- Drops all samples and keeps the sync. -/
def clearSamples (line : Scanline) : Scanline := { line with samples := #[] }

def addSync (line : Scanline) (tstates : Nat) : Scanline :=
  { line with syncLength := min (line.syncLength + tstates) longestSync }

def endWith (line : Scanline) (sync : Sync) : Scanline := { line with sync }

def hasSync (line : Scanline) : Bool := line.sync != .absent

def resetSync (line : Scanline) : Scanline := { line with syncLength := 0, sync := .absent }

theorem length_push (line : Scanline) (colour : UInt8) :
    (line.push colour).length =
      if line.length < capacity then line.length + 1 else line.length := by
  obtain ⟨samples, syncLength, sync⟩ := line
  by_cases h : samples.size < capacity <;> simp [push, length, h]

@[simp] theorem length_fill (line : Scanline) (colour : UInt8) (n : Nat) :
    (line.fill colour n).length = line.length + min n (capacity - line.length) := by
  simp [fill, length]

end Scanline
end Zx81.Video
