import Zx81.Z80.Operand

namespace Zx81.Z80

def bitMask (n : Fin 8) : UInt8 := UInt8.ofNat (1 <<< n.val)

namespace BitOp

/-- Whether the operand is replaced. A test only sets flags. -/
def writes : BitOp → Bool
  | test _ => false
  | _ => true

/-- The new value and flags. `copied` supplies bits 5 and 3 of a test. -/
def apply (op : BitOp) (v copied : UInt8) (f : Flags) : Result :=
  match op with
  | shift s => s.apply v f
  | test n => ⟨v, Arithmetic.bitTest f n v copied⟩
  | reset n => ⟨v &&& ~~~(bitMask n), f⟩
  | set n => ⟨v ||| bitMask n, f⟩

end BitOp

namespace BitPage

variable {σ : Type}

def onRegister (op : BitOp) (r : Reg8) : Exec σ Unit :=
  update fun regs =>
    let v := regs.get8 r
    let result := op.apply v v regs.flags
    let regs := regs.withFlags result.flags
    if op.writes then regs.set8 r result.value else regs

variable [Bus σ]

def onMemory (op : BitOp) (address : UInt16) (copied : UInt8 → UInt8) : Exec σ UInt8 := do
  let v ← readByte address
  internal address 1
  let result := op.apply v (copied v) (← inspect (·.flags))
  update (·.withFlags result.flags)
  if op.writes then
    writeByte address result.value
  return result.value

def onOperand (op : BitOp) : Operand → Exec σ Unit
  | .reg r => onRegister op r
  | .mem m => do
    let address ← addressOf m
    let _ ← onMemory op address id

def perform : Exec σ Unit := do
  let opcode ← fetchOpcode
  onOperand (BitOp.decode opcode) (Operand.ofCode (opcodeColumn opcode))

def copyTo (opcode value : UInt8) : Exec σ Unit :=
  match Reg8.ofCode? (opcodeColumn opcode) with
  | some r => update (·.set8 r value)
  | none => pure ()

/-- The instruction behind DD CB or FD CB. Its opcode is read and not fetched, so it is no
refresh cycle. A test takes bits 5 and 3 from the high byte of the address; any other result is
copied to the register that the opcode names. -/
def performIndexed (x : IndexReg) : Exec σ Unit := do
  let d ← fetchByte
  let address ← inspect fun r => displace (r.index x).word d
  let pc ← inspect (·.pc)
  let opcode ← readByte pc
  internal pc 2
  update fun r => { r with pc := pc + 1 }
  let op := BitOp.decode opcode
  let value ← onMemory op address fun _ => Arithmetic.highByte address
  if op.writes then
    copyTo opcode value

end BitPage
end Zx81.Z80
