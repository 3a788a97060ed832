namespace Zx81

/-- The accesses of a bus with state `σ`. Reads may change the state too. -/
class Bus (σ : Type) where
  read : UInt16 → σ → UInt8 × σ
  write : UInt16 → UInt8 → σ → σ
  /-- The read of an opcode, followed by a refresh cycle at the second address. -/
  fetch : UInt16 → UInt16 → σ → UInt8 × σ
  input : UInt16 → σ → UInt8 × σ
  output : UInt16 → UInt8 → σ → σ
  /-- The wait states of a memory cycle at an address: it begins `elapsed` T-states into the
  instruction and asks for `requested` of them. -/
  memoryWait (address : UInt16) (elapsed requested : Nat) : σ → Nat × σ
  /-- The wait states of a port cycle. -/
  portWait (port : UInt16) (elapsed requested : Nat) : σ → Nat × σ

end Zx81
