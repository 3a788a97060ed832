import Zx81.Bus.Basic
import Zx81.Ram

namespace Zx81

structure FlatBus where
  ram : Ram := .zero
  /-- The values of input ports; a port that is not listed reads FF. -/
  ports : List (UInt16 × UInt8) := []
  /-- What was sent to ports, in order. -/
  sent : Array (UInt16 × UInt8) := #[]
  waitStates : Nat := 0

namespace FlatBus

/-- Sets the value of an input port, in place of an earlier one. -/
def setPort (s : FlatBus) (port : UInt16) (value : UInt8) : FlatBus :=
  { s with ports := (port, value) :: s.ports.filter (·.1 != port) }

def portValue (s : FlatBus) (port : UInt16) : UInt8 := (s.ports.lookup port).getD 0xFF

instance : Bus FlatBus where
  read a s := (s.ram.get a, s)
  write a v := fun ⟨ram, ports, sent, waitStates⟩ => ⟨ram.set a v, ports, sent, waitStates⟩
  fetch a _ s := (s.ram.get a, s)
  input p s := (s.portValue p, s)
  output p v := fun ⟨ram, ports, sent, waitStates⟩ =>
    ⟨ram, ports, sent.push (p, v), waitStates⟩
  memoryWait _ _ _ s := (s.waitStates, s)
  portWait _ _ _ s := (0, s)

end FlatBus
end Zx81
