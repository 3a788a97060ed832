import Zx81.Text.Hex
import Zx81.Video.Window

namespace Zx81

inductive Model where
  | zx80
  | zx81
  deriving DecidableEq

def Model.name : Model → String
  | zx80 => "zx80"
  | zx81 => "zx81"

def Model.all : List Model := [zx80, zx81]

/-- Where characters of the display file get their bitmaps from. -/
inductive CharGenerator where
  /-- The character set in ROM. -/
  | rom
  /-- A board with a character set in its own memory. -/
  | qs
  /-- A board with 128 characters in place of 64 and their inverses. -/
  | chr128
  deriving DecidableEq

def CharGenerator.name : CharGenerator → String
  | rom => "rom"
  | qs => "qs"
  | chr128 => "chr128"

def CharGenerator.all : List CharGenerator := [rom, qs, chr128]

/-- A machine. The default is a 16K ZX81 for 50 Hz. -/
structure Config where
  model : Model := .zx81
  clockHz : Nat := 3250000
  lineTstates : Nat := 207
  frameLines : Nat := 312
  /-- The T-state of a frame at which an interrupt is requested, if any. -/
  interruptAt : Option Nat := none
  romTop : UInt16 := 0x1FFF
  ramTop : UInt16 := 0x7FFF
  protectRom : Bool := true
  /-- The ROM repeats up to 3FFF. -/
  shadowRom : Bool := true
  /-- Opcodes from this address on are fetched from the display file. -/
  displayStart : UInt16 := 0x8000
  charGenerator : CharGenerator := .rom
  border : Video.Border := .normal
  ntsc : Bool := false
  interlaced : Bool := false
  /-- Lines end after every instruction. -/
  singleStep : Bool := false
  deriving DecidableEq

/-- The settings that may not be zero. -/
inductive TimingSetting where
  | clock
  | line
  | frame
  deriving DecidableEq

/-- The name of a setting in a description. -/
def TimingSetting.name : TimingSetting → String
  | clock => "clock_hz"
  | line => "tstates_per_line"
  | frame => "lines_per_frame"

/-- Why a description is refused. -/
inductive ConfigError where
  | zeroTiming (setting : TimingSetting)
  | romOverlapsRam (romTop ramTop : UInt16)
  | thresholdInRom (threshold : UInt16)
  | interruptOutsideFrame (position frame : Nat)
  /-- The text is no description at all. -/
  | malformed
  deriving DecidableEq

def ConfigError.message : ConfigError → String
  | zeroTiming setting => setting.name ++ " must be non-zero"
  | romOverlapsRam romTop ramTop =>
    "ROM top " ++ Text.hexLiteral romTop.toNat 4 ++ " is not below RAM top " ++
      Text.hexLiteral ramTop.toNat 4
  | thresholdInRom threshold =>
    "display threshold " ++ Text.hexLiteral threshold.toNat 4 ++ " lies inside ROM"
  | interruptOutsideFrame position frame =>
    "frame-INT position " ++ Nat.repr position ++ " is past the end of the frame (" ++
      Nat.repr frame ++ " T-states)"
  | malformed => "invalid configuration file"

namespace Config

def zx81 : Config := {}

def zx80 : Config := { zx81 with model := .zx80, romTop := 0x0FFF }

def ofModel : Model → Config
  | .zx80 => zx80
  | .zx81 => zx81

def withNtsc (c : Config) : Config := { c with ntsc := true, frameLines := 262 }

/-- T-states and lines are counted in 32 bits, and the count wraps. -/
@[irreducible] def counted (n : Nat) : Nat := n % 0x100000000

theorem counted_eq_iff {n : Nat} : counted n = n ↔ n < 0x100000000 := by
  unfold counted
  omega

theorem counted_of_lt {n : Nat} (h : n < 0x100000000) : counted n = n := counted_eq_iff.mpr h

def frameTstates (c : Config) : Nat := counted (c.lineTstates * c.frameLines)

theorem frameTstates_of_lt {c : Config} (h : c.lineTstates * c.frameLines < 0x100000000) :
    c.frameTstates = c.lineTstates * c.frameLines := counted_of_lt h

/-- The first reason to refuse a machine, if there is one. -/
def fault? (c : Config) : Option ConfigError :=
  if c.clockHz = 0 then some (.zeroTiming .clock)
  else if c.lineTstates = 0 then some (.zeroTiming .line)
  else if c.frameLines = 0 then some (.zeroTiming .frame)
  else if c.ramTop ≤ c.romTop then some (.romOverlapsRam c.romTop c.ramTop)
  else if c.displayStart ≤ c.romTop then some (.thresholdInRom c.displayStart)
  else
    match c.interruptAt with
    | some position =>
      if c.frameTstates ≤ position then some (.interruptOutsideFrame position c.frameTstates)
      else none
    | none => none

def validate (c : Config) : Except ConfigError Config :=
  match c.fault? with
  | some e => .error e
  | none => .ok c

/-- What the check asks of a description. -/
structure Runnable (c : Config) : Prop where
  clock : c.clockHz ≠ 0
  line : c.lineTstates ≠ 0
  frame : c.frameLines ≠ 0
  ram : c.romTop < c.ramTop
  display : c.romTop < c.displayStart
  interrupt : ∀ position, c.interruptAt = some position → position < c.frameTstates

private theorem refuse_eq_none {p : Prop} [Decidable p] {e : ConfigError}
    {rest : Option ConfigError} : (if p then some e else rest) = none ↔ ¬p ∧ rest = none := by
  by_cases h : p <;> simp [h]

theorem fault?_eq_none_iff (c : Config) : c.fault? = none ↔ c.Runnable := by
  unfold fault?
  rw [refuse_eq_none, refuse_eq_none, refuse_eq_none, refuse_eq_none, refuse_eq_none,
    UInt16.not_le, UInt16.not_le]
  constructor
  · rintro ⟨hclock, hline, hframe, hram, hdisplay, hlast⟩
    refine ⟨hclock, hline, hframe, hram, hdisplay, ?_⟩
    intro position hat
    rw [hat] at hlast
    exact Nat.lt_of_not_le (refuse_eq_none.mp hlast).1
  · rintro ⟨hclock, hline, hframe, hram, hdisplay, hinterrupt⟩
    refine ⟨hclock, hline, hframe, hram, hdisplay, ?_⟩
    cases hat : c.interruptAt with
    | none => rfl
    | some position => exact refuse_eq_none.mpr ⟨Nat.not_le_of_lt (hinterrupt position hat), rfl⟩

theorem Runnable.frame_pos {c : Config} (h : c.Runnable) : 0 < c.lineTstates * c.frameLines :=
  Nat.mul_pos (Nat.pos_of_ne_zero h.line) (Nat.pos_of_ne_zero h.frame)

end Config
end Zx81
