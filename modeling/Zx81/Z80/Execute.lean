import Zx81.Z80.BitPage
import Zx81.Z80.ExtendedPage

namespace Zx81.Z80

variable {σ : Type} [Bus σ]

/-- Stores an immediate byte. A displacement is fetched before the byte, and adding it takes two
T-states after. -/
def loadImmediate : Operand → Exec σ Unit
  | .reg r => do
    let v ← fetchByte
    update (·.set8 r v)
  | .mem .hl => do
    let v ← fetchByte
    writeByte (← inspect (·.hl.word)) v
  | .mem (.displaced x) => do
    let d ← fetchByte
    let operandPc ← inspect (·.pc)
    let v ← fetchByte
    internal operandPc 2
    writeByte (← inspect fun r => displace (r.index x).word d) v

def exchangeStack (r : Reg16) : Exec σ Unit := do
  let p := Pair.ofWord (← inspect (·.get16 r))
  let sp ← inspect (·.sp)
  let w ← readWord sp
  internal (sp + 1) 1
  writeByte (sp + 1) p.hi
  writeByte sp p.lo
  internal sp 2
  update (·.set16 r w)

def callTo (address : UInt16) : Exec σ Unit := do
  let pc ← inspect (·.pc)
  internal (pc - 1) 1
  push pc
  jumpTo address

/-- The port that an instruction with an immediate port number addresses: the accumulator is its
high byte. -/
def immediatePort : Exec σ UInt16 := do
  let n ← fetchByte
  inspect fun r => (Pair.mk r.a n).word

def stepWord (r : Reg16) (f : UInt16 → UInt16) : Exec σ Unit := do
  internalRefresh 2
  update fun regs => regs.set16 r (f (regs.get16 r))

namespace Instruction

/-- The effect of an instruction whose opcode has been fetched, prefixes DD and FD apart. -/
def perform : Instruction → Exec σ Unit
  | .nop => pure ()
  | .halt => update fun r => { r with halted := true, pc := r.pc - 1 }
  | .enableInterrupts => do
    update fun r => { r with iff1 := true, iff2 := true }
    holdOffInterrupts
  | .disableInterrupts => update fun r => { r with iff1 := false, iff2 := false }
  | .exchangeAf => update (·.exchangeAf)
  | .exchangeMain => update (·.exchangeMain)
  | .exchangeDeHl => update (·.exchangeDeHl)
  | .exchangeStack r => Z80.exchangeStack r
  | .load dst src => do writeOperand dst (← readOperand src)
  | .loadImmediate dst => Z80.loadImmediate dst
  | .loadWord r => do
    let w ← fetchWord
    update (·.set16 r w)
  | .loadWordAt r => do
    let address ← fetchWord
    let w ← readWord address
    update (·.set16 r w)
  | .storeWordAt r => do
    let address ← fetchWord
    writeWord address (← inspect (·.get16 r))
  | .storeAt r => do writeByte (← inspect (·.get16 r)) (← inspect (·.a))
  | .loadFrom r => do
    let v ← readByte (← inspect (·.get16 r))
    update (·.withA v)
  | .storeAbsolute => do
    let address ← fetchWord
    writeByte address (← inspect (·.a))
  | .loadAbsolute => do
    let address ← fetchWord
    let v ← readByte address
    update (·.withA v)
  | .loadStackPointer r => do
    internalRefresh 2
    update fun regs => { regs with sp := regs.get16 r }
  | .push r => do
    internalRefresh 1
    Z80.push (← inspect (·.get16 r))
  | .pop r => do
    let w ← Z80.pop
    update (·.set16 r w)
  | .inc o => modifyOperand o Arithmetic.inc
  | .dec o => modifyOperand o Arithmetic.dec
  | .incWord r => stepWord r (· + 1)
  | .decWord r => stepWord r (· - 1)
  | .addWord dst src =>
    updateWord dst fun w regs => Arithmetic.addWord w (regs.get16 src) regs.flags
  | .alu op src => do
    let v ← readOperand src
    updateAccumulator (op.apply · v)
  | .aluImmediate op => do
    let v ← fetchByte
    updateAccumulator (op.apply · v)
  | .rotate s => updateAccumulator s.applyAccumulator
  | .decimalAdjust => updateAccumulator Arithmetic.decimalAdjust
  | .complement => updateAccumulator Arithmetic.complement
  | .setCarry => updateAccumulator fun a f => ⟨a, Arithmetic.setCarry a f⟩
  | .flipCarry => updateAccumulator fun a f => ⟨a, Arithmetic.flipCarry a f⟩
  | .jumpRelative c => do
    let operandPc ← inspect (·.pc)
    let d ← fetchByte
    if ← taken c then
      jumpBy operandPc d
  | .decrementJump => do
    internalRefresh 1
    let operandPc ← inspect (·.pc)
    let d ← fetchByte
    let b := (← inspect (·.bc.hi)) - 1
    update fun r => { r with bc := { r.bc with hi := b } }
    if b != 0 then
      jumpBy operandPc d
  | .jump c => do
    let address ← fetchWord
    if ← taken c then
      Z80.jumpTo address
  | .jumpTo r => update fun regs => { regs with pc := regs.get16 r }
  | .call c => do
    let address ← fetchWord
    if ← taken c then
      callTo address
  | .ret none => do Z80.jumpTo (← Z80.pop)
  | .ret (some c) => do
    internalRefresh 1
    if ← taken (some c) then
      Z80.jumpTo (← Z80.pop)
  | .restart row => do
    internalRefresh 1
    Z80.push (← inspect (·.pc))
    Z80.jumpTo (UInt16.ofNat (8 * row.val))
  | .input => do
    let v ← readPort (← immediatePort)
    update (·.withA v)
  | .output => do
    let port ← immediatePort
    writePort port (← inspect (·.a))
  | .bitPage => BitPage.perform
  | .indexedBitPage x => BitPage.performIndexed x
  | .extendedPage => do Extended.perform (Extended.decode (← fetchOpcode))
  | .indexPage _ => pure ()

/-- The effect of an instruction whose opcode has been fetched. After DD or FD the next opcode is
fetched too. If it does not name HL the prefix is dropped: the fetch is taken back, and the next
step runs that opcode as it stands. -/
def execute : Instruction → Exec σ Unit
  | .indexPage x => do
    match (decode (← fetchOpcode)).indexed x with
    | some i => i.perform
    | none => update fun r => { r.retreatRefresh with pc := r.pc - 1 }
  | i => i.perform

end Instruction
end Zx81.Z80
