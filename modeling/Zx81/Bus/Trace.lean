import Zx81.Bus.Basic
import Zx81.Text.Hex

namespace Zx81

/-- One access to a bus, with the byte that was moved or the wait states that were added. -/
inductive BusEvent where
  | memoryWait (address : UInt16) (elapsed requested wait : Nat)
  | portWait (port : UInt16) (elapsed requested wait : Nat)
  | fetch (address refresh : UInt16) (v : UInt8)
  | read (address : UInt16) (v : UInt8)
  | write (address : UInt16) (v : UInt8)
  | input (port : UInt16) (v : UInt8)
  | output (port : UInt16) (v : UInt8)
  deriving DecidableEq

namespace BusEvent

private def words (ws : List String) : String := " ".intercalate ws

/-- The event as a line of a log. Wait states are not shown; the next cycle's T-state tells
them. -/
def text : BusEvent → String
  | memoryWait a elapsed requested _ =>
    words ["MC", Text.hex4 a, Nat.repr elapsed, Nat.repr requested]
  | portWait p elapsed requested _ =>
    words ["IC", Text.hex4 p, Nat.repr elapsed, Nat.repr requested]
  | fetch a refresh v => words ["F", Text.hex4 a, Text.hex4 refresh, Text.hex2 v]
  | read a v => words ["R", Text.hex4 a, Text.hex2 v]
  | write a v => words ["W", Text.hex4 a, Text.hex2 v]
  | input p v => words ["PR", Text.hex4 p, Text.hex2 v]
  | output p v => words ["PW", Text.hex4 p, Text.hex2 v]

end BusEvent

/-- A bus with a record of the accesses made to it. -/
structure Traced (σ : Type) where
  bus : σ
  events : Array BusEvent := #[]

namespace Traced

variable {σ : Type} [Bus σ]

instance : Bus (Traced σ) where
  read a := fun ⟨bus, events⟩ =>
    match Bus.read a bus with
    | (v, bus) => (v, ⟨bus, events.push (.read a v)⟩)
  write a v := fun ⟨bus, events⟩ => ⟨Bus.write a v bus, events.push (.write a v)⟩
  fetch a refresh := fun ⟨bus, events⟩ =>
    match Bus.fetch a refresh bus with
    | (v, bus) => (v, ⟨bus, events.push (.fetch a refresh v)⟩)
  input p := fun ⟨bus, events⟩ =>
    match Bus.input p bus with
    | (v, bus) => (v, ⟨bus, events.push (.input p v)⟩)
  output p v := fun ⟨bus, events⟩ => ⟨Bus.output p v bus, events.push (.output p v)⟩
  memoryWait a elapsed requested := fun ⟨bus, events⟩ =>
    match Bus.memoryWait a elapsed requested bus with
    | (wait, bus) => (wait, ⟨bus, events.push (.memoryWait a elapsed requested wait)⟩)
  portWait p elapsed requested := fun ⟨bus, events⟩ =>
    match Bus.portWait p elapsed requested bus with
    | (wait, bus) => (wait, ⟨bus, events.push (.portWait p elapsed requested wait)⟩)

end Traced
end Zx81
