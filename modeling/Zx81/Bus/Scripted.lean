import Zx81.Bus.Basic
import Zx81.Ram

namespace Zx81

/-- The wait states of cycles at addresses from `low` to `high`, and of port cycles. Both lists
are gone through in circles by the T-states spent so far. -/
structure WaitScript where
  low : UInt16 := 0
  high : UInt16 := 0
  memory : Array Nat := #[]
  ports : Array Nat := #[]

namespace WaitScript

/-- The entry of a list for a T-state; an empty list has no waits. -/
def entry (waits : Array Nat) (elapsed : Nat) : Nat := (waits[elapsed % waits.size]?).getD 0

end WaitScript

structure ScriptedBus where
  ram : Ram := .zero
  ports : List (UInt16 × UInt8) := []
  waits : WaitScript := {}

namespace ScriptedBus

/-- What a port without a script reads: its low byte and three times its high byte. -/
def openPort (port : UInt16) : UInt8 := 3 * (port / 256).toUInt8 + port.toUInt8

instance : Bus ScriptedBus where
  read a s := (s.ram.get a, s)
  write a v := fun ⟨ram, ports, waits⟩ => ⟨ram.set a v, ports, waits⟩
  fetch a _ s := (s.ram.get a, s)
  input p s := ((s.ports.lookup p).getD (openPort p), s)
  output _ _ s := s
  memoryWait a elapsed _ s :=
    (if s.waits.low ≤ a ∧ a ≤ s.waits.high then WaitScript.entry s.waits.memory elapsed else 0, s)
  portWait _ elapsed _ s := (WaitScript.entry s.waits.ports elapsed, s)

end ScriptedBus
end Zx81
