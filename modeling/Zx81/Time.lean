namespace Zx81

/-- A number of T-states. -/
structure Ticks where
  count : Nat
  deriving DecidableEq

namespace Ticks

/-- The later of two counts less the earlier; a count does not go below zero. -/
def sub (a b : Ticks) : Ticks := ⟨a.count - b.count⟩

def add (a b : Ticks) : Ticks := ⟨a.count + b.count⟩

def text (t : Ticks) : String := Nat.repr t.count ++ "T"

end Ticks

/-- A clock of a frequency in Hz. -/
structure Clock where
  hz : Nat

namespace Clock

/-- Whole T-states in a frame at a frame rate; a rate of zero has no frame. -/
def ticksPerFrame (c : Clock) (framesPerSecond : Nat) : Option Ticks :=
  if framesPerSecond = 0 then none else some ⟨c.hz / framesPerSecond⟩

/-- Frames in a second for a frame of some T-states, zero for an empty frame. Frequency and
count are rounded to doubles before the division. -/
def framesPerSecond (c : Clock) (frame : Ticks) : Float :=
  if frame.count = 0 then 0.0
  else (UInt64.ofNat c.hz).toFloat / (UInt64.ofNat frame.count).toFloat

/-- Whole nanoseconds that some T-states take, in a count of 64 bits. A stopped clock takes no
time. -/
def nanoseconds (c : Clock) (t : Ticks) : Nat :=
  if c.hz = 0 then 0 else t.count * 1000000000 / c.hz % 0x10000000000000000

/-- The same time as seconds and nanoseconds. -/
def duration (c : Clock) (t : Ticks) : Nat × Nat :=
  (c.nanoseconds t / 1000000000, c.nanoseconds t % 1000000000)

end Clock
end Zx81
