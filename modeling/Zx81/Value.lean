import Zx81.Text.Hex

namespace Zx81

/-- A value of one of the widths that components show. -/
inductive Value where
  | bool (b : Bool)
  | u8 (v : UInt8)
  | u16 (v : UInt16)
  | u32 (n : Nat)
  | u64 (n : Nat)
  | i32 (n : Int)
  deriving DecidableEq

def Value.kind : Value → String
  | bool _ => "bool"
  | u8 _ => "u8"
  | u16 _ => "u16"
  | u32 _ => "u32"
  | u64 _ => "u64"
  | i32 _ => "i32"

/-- Bytes and words are written in hexadecimal at full width, other numbers in decimal. -/
def Value.text : Value → String
  | bool b => if b then "true" else "false"
  | u8 v => Text.hexLiteral v.toNat 2
  | u16 v => Text.hexLiteral v.toNat 4
  | u32 n => Nat.repr n
  | u64 n => Nat.repr n
  | i32 n => Int.repr n

end Zx81
