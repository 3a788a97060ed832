import Zx81.Config.Basic
import Zx81.Text.Json
import Zx81.Text.Name

namespace Zx81

open Text (Json)

namespace Setting

def bool : Json → Option Bool
  | .bool b => some b
  | _ => none

def natural (bound : Nat) : Json → Option Nat
  | .natural n => if n < bound then some n else none
  | _ => none

/-- A number of 32 bits that may be absent. -/
def optionalCount : Json → Option (Option Nat)
  | .null => some none
  | j => (natural 0x100000000 j).map some

/-- One of some names: as a text, or as the only member of an object, with null. -/
def choice {α : Type} (all : List α) (name : α → String) : Json → Option α
  | .string (some s) => Text.byName all name s
  | .object [(some s, .null)] => Text.byName all name s
  | _ => none

end Setting

/-- A setting: its name, how a value changes a machine, and the value in a machine. -/
structure Setting where
  name : String
  apply : Json → Config → Option Config
  value : Config → Json

namespace Setting

def ofBool (name : String) (store : Config → Bool → Config) (get : Config → Bool) : Setting :=
  ⟨name, fun j c => (bool j).map (store c), fun c => .bool (get c)⟩

/-- A setting that is a number below a bound. -/
def ofNat (bound : Nat) (name : String) (store : Config → Nat → Config) (get : Config → Nat) :
    Setting :=
  ⟨name, fun j c => (natural bound j).map (store c), fun c => .natural (get c)⟩

def ofAddress (name : String) (store : Config → UInt16 → Config) (get : Config → UInt16) :
    Setting :=
  ofNat 0x10000 name (fun c n => store c (UInt16.ofNat n)) fun c => (get c).toNat

/-- A setting that is one of some names. -/
def ofChoice {α : Type} (all : List α) (toName : α → String) (name : String)
    (store : Config → α → Config) (get : Config → α) : Setting :=
  ⟨name, fun j c => (choice all toName j).map (store c), fun c => .string (some (toName (get c)))⟩

def interruptAt : Setting :=
  ⟨"interrupt_tstate", fun j c => (optionalCount j).map fun v => { c with interruptAt := v },
    fun c => match c.interruptAt with
      | some n => .natural n
      | none => .null⟩

def all : List Setting :=
  [ofChoice Model.all Model.name "model" (fun c v => { c with model := v }) (·.model),
   ofNat 0x10000000000000000 "clock_hz" (fun c v => { c with clockHz := v }) (·.clockHz),
   ofNat 0x100000000 "tstates_per_line" (fun c v => { c with lineTstates := v }) (·.lineTstates),
   ofNat 0x100000000 "lines_per_frame" (fun c v => { c with frameLines := v }) (·.frameLines),
   interruptAt,
   ofAddress "rom_top" (fun c v => { c with romTop := v }) (·.romTop),
   ofAddress "ram_top" (fun c v => { c with ramTop := v }) (·.ramTop),
   ofBool "protect_rom" (fun c v => { c with protectRom := v }) (·.protectRom),
   ofBool "shadow_rom" (fun c v => { c with shadowRom := v }) (·.shadowRom),
   ofAddress "m1not" (fun c v => { c with displayStart := v }) (·.displayStart),
   ofChoice CharGenerator.all CharGenerator.name "char_generator"
     (fun c v => { c with charGenerator := v }) (·.charGenerator),
   ofChoice Video.Border.all Video.Border.name "border"
     (fun c v => { c with border := v }) (·.border),
   ofBool "ntsc" (fun c v => { c with ntsc := v }) (·.ntsc),
   ofBool "interlaced" (fun c v => { c with interlaced := v }) (·.interlaced),
   ofBool "single_step" (fun c v => { c with singleStep := v }) (·.singleStep)]

def named? (name : String) : Option Setting := all.find? (·.name == name)

end Setting

namespace Config

/-- Applies members of an object. Unknown names are passed over; no setting may come twice. -/
def applyMembers : List (Option String × Json) → List String → Config → Option Config
  | [], _, c => some c
  | (none, _) :: _, _, _ => none
  | (some key, v) :: rest, seen, c =>
    match Setting.named? key with
    | none => applyMembers rest seen c
    | some s =>
      if seen.contains key then none
      else (s.apply v c).bind (applyMembers rest (key :: seen))

/-- Applies values to settings in order; there may be fewer values, but not more. -/
def applyInOrder : List Json → List Setting → Config → Option Config
  | [], _, c => some c
  | _ :: _, [], _ => none
  | v :: vs, s :: ss, c => (s.apply v c).bind (applyInOrder vs ss)

def ofJson? : Json → Option Config
  | .object members => applyMembers members [] zx81
  | .array elements => applyInOrder elements Setting.all zx81
  | _ => none

def toJson (c : Config) : Json := .object (Setting.all.map fun s => (some s.name, s.value c))

def ofText (s : String) : Except ConfigError Config :=
  match (Json.ofText? s).bind ofJson? with
  | some c => c.validate
  | none => .error .malformed

end Config
end Zx81
