import Zx81.Machine.Basic

namespace Zx81

open Text (hexValue)

def hexNumber : List Char → Option Nat
  | [] => none
  | cs => cs.foldlM (fun n c => (hexValue c).map (16 * n + ·)) 0

def skipHexMarks : List Char → List Char
  | '0' :: 'x' :: rest => skipHexMarks rest
  | cs => cs

/-- An address in hexadecimal digits, with or without marks and a plus sign before it. -/
def readAddress (s : List Char) : Option UInt16 :=
  let digits := match skipHexMarks s with
    | '+' :: rest => rest
    | cs => cs
  match hexNumber digits with
  | some n => if n < 65536 then some (UInt16.ofNat n) else none
  | none => none

/-- What follows a beginning of a path, if the path has it. -/
def afterBeginning? (beginning path : String) : Option String :=
  if beginning.toList.isPrefixOf path.toList then
    some (.ofList (path.toList.drop beginning.length))
  else none

namespace Machine

def gauges : List (String × (Machine → Value)) :=
  [("ula.row", fun m => .u8 (UInt8.ofNat m.engine.board.ula.row.val)),
   ("ula.hsync", fun m => .bool m.engine.board.ula.lit),
   ("ula.nmi", fun m => .bool m.engine.board.ula.nmi),
   ("ula.line_counter", fun m => .i32 m.engine.board.ula.counter.toInt),
   ("ula.qs", fun m => .bool m.engine.board.qs.enabled),
   ("raster.x", fun m => .u32 m.raster.beam.x),
   ("raster.y", fun m => .u32 m.raster.beam.y),
   ("frames", fun m => .u64 m.frames)]

def paths : List String := ["cpu.<reg>", "memory.<addr>"] ++ gauges.map (·.1)

/-- The value at a path: a register, a byte of memory, or a gauge. -/
def query (m : Machine) (path : String) : Option Value :=
  match afterBeginning? "cpu." path, afterBeginning? "memory." path with
  | some register, _ => m.engine.cpu.query register
  | none, some address =>
    (readAddress address.toList).map fun a => .u8 (m.engine.board.memory.read a)
  | none, none => (gauges.lookup path).map (· m)

end Machine
end Zx81
