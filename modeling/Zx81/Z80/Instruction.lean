import Zx81.Z80.Shift
import Zx81.Z80.Registers

namespace Zx81.Z80

def opcodeGroup (op : UInt8) : Fin 4 := ⟨op.toNat / 64, by have := op.toNat_lt; omega⟩

def opcodeRow (op : UInt8) : Fin 8 := ⟨op.toNat / 8 % 8, by omega⟩

def opcodeColumn (op : UInt8) : Fin 8 := ⟨op.toNat % 8, by omega⟩

/-- A byte in memory that an instruction names: the byte at HL, or the byte at a signed
displacement from an index register. -/
inductive MemoryOperand where
  | hl
  | displaced (x : IndexReg)
  deriving DecidableEq

inductive Operand where
  | reg (r : Reg8)
  | mem (m : MemoryOperand)
  deriving DecidableEq

/-- The operand an opcode field selects; field 6 is the byte at HL. -/
def Operand.ofCode : Fin 8 → Operand
  | 0 => .reg .b
  | 1 => .reg .c
  | 2 => .reg .d
  | 3 => .reg .e
  | 4 => .reg .h
  | 5 => .reg .l
  | 6 => .mem .hl
  | _ => .reg .a

def Reg8.ofCode? (n : Fin 8) : Option Reg8 :=
  match Operand.ofCode n with
  | .reg r => some r
  | .mem _ => none

def Reg16.ofRow (n : Fin 8) : Reg16 :=
  if n.val < 2 then .bc else if n.val < 4 then .de else if n.val < 6 then .hl else .sp

/-- The word register a stack instruction's row selects: AF in the place of SP. -/
def Reg16.ofStackRow (n : Fin 8) : Reg16 :=
  if n.val < 2 then .bc else if n.val < 4 then .de else if n.val < 6 then .hl else .af

def AluOp.ofCode : Fin 8 → AluOp
  | 0 => .add
  | 1 => .adc
  | 2 => .sub
  | 3 => .sbc
  | 4 => .and
  | 5 => .xor
  | 6 => .or
  | _ => .cp

inductive Instruction where
  | nop
  | halt
  | enableInterrupts
  | disableInterrupts
  | exchangeAf
  | exchangeMain
  | exchangeDeHl
  | exchangeStack (r : Reg16)
  /-- The instruction `LD r,r'` and its forms with a byte in memory. -/
  | load (dst src : Operand)
  | loadImmediate (dst : Operand)
  | loadWord (r : Reg16)
  | loadWordAt (r : Reg16)
  | storeWordAt (r : Reg16)
  /-- The accumulator stored at the address a register holds. -/
  | storeAt (r : Reg16)
  /-- The accumulator loaded from the address a register holds. -/
  | loadFrom (r : Reg16)
  | storeAbsolute
  | loadAbsolute
  | loadStackPointer (r : Reg16)
  | push (r : Reg16)
  | pop (r : Reg16)
  | inc (o : Operand)
  | dec (o : Operand)
  | incWord (r : Reg16)
  | decWord (r : Reg16)
  | addWord (dst src : Reg16)
  | alu (op : AluOp) (src : Operand)
  | aluImmediate (op : AluOp)
  | rotate (s : Shift)
  | decimalAdjust
  | complement
  | setCarry
  | flipCarry
  | jumpRelative (c : Option Condition)
  | decrementJump
  | jump (c : Option Condition)
  | jumpTo (r : Reg16)
  | call (c : Option Condition)
  | ret (c : Option Condition)
  | restart (row : Fin 8)
  | input
  | output
  /-- CB: an opcode of the bit page follows. -/
  | bitPage
  /-- DD CB and FD CB: a displacement and an opcode of the bit page follow. -/
  | indexedBitPage (x : IndexReg)
  /-- ED: an opcode of the extended page follows. -/
  | extendedPage
  /-- DD and FD: an opcode of the main page follows, in which HL is replaced. -/
  | indexPage (x : IndexReg)
  deriving DecidableEq

/-- Opcodes below 40. -/
def decodeLow (row column : Fin 8) : Instruction :=
  match column with
  | 0 =>
    match row with
    | 0 => .nop
    | 1 => .exchangeAf
    | 2 => .decrementJump
    | 3 => .jumpRelative none
    | 4 => .jumpRelative (some .notZero)
    | 5 => .jumpRelative (some .zero)
    | 6 => .jumpRelative (some .notCarry)
    | _ => .jumpRelative (some .carry)
  | 1 => if row.val % 2 = 0 then .loadWord (.ofRow row) else .addWord .hl (.ofRow row)
  | 2 =>
    match row with
    | 0 => .storeAt .bc
    | 1 => .loadFrom .bc
    | 2 => .storeAt .de
    | 3 => .loadFrom .de
    | 4 => .storeWordAt .hl
    | 5 => .loadWordAt .hl
    | 6 => .storeAbsolute
    | _ => .loadAbsolute
  | 3 => if row.val % 2 = 0 then .incWord (.ofRow row) else .decWord (.ofRow row)
  | 4 => .inc (.ofCode row)
  | 5 => .dec (.ofCode row)
  | 6 => .loadImmediate (.ofCode row)
  | _ =>
    match row with
    | 0 => .rotate .rotateLeft
    | 1 => .rotate .rotateRight
    | 2 => .rotate .rotateLeftCarry
    | 3 => .rotate .rotateRightCarry
    | 4 => .decimalAdjust
    | 5 => .complement
    | 6 => .setCarry
    | _ => .flipCarry

/-- Opcodes from C0 up. -/
def decodeHigh (row column : Fin 8) : Instruction :=
  match column with
  | 0 => .ret (some (.ofCode row))
  | 1 =>
    match row with
    | 1 => .ret none
    | 3 => .exchangeMain
    | 5 => .jumpTo .hl
    | 7 => .loadStackPointer .hl
    | _ => .pop (.ofStackRow row)
  | 2 => .jump (some (.ofCode row))
  | 3 =>
    match row with
    | 0 => .jump none
    | 1 => .bitPage
    | 2 => .output
    | 3 => .input
    | 4 => .exchangeStack .hl
    | 5 => .exchangeDeHl
    | 6 => .disableInterrupts
    | _ => .enableInterrupts
  | 4 => .call (some (.ofCode row))
  | 5 =>
    match row with
    | 1 => .call none
    | 3 => .indexPage .ix
    | 5 => .extendedPage
    | 7 => .indexPage .iy
    | _ => .push (.ofStackRow row)
  | 6 => .aluImmediate (.ofCode row)
  | _ => .restart row

def decode (op : UInt8) : Instruction :=
  let row := opcodeRow op
  let column := opcodeColumn op
  match opcodeGroup op with
  | 0 => decodeLow row column
  | 1 => if row.val = 6 ∧ column.val = 6 then .halt else .load (.ofCode row) (.ofCode column)
  | 2 => .alu (.ofCode row) (.ofCode column)
  | _ => decodeHigh row column

namespace Reg16

def indexed (x : IndexReg) : Reg16 → Option Reg16
  | hl => some (index x)
  | _ => none

end Reg16

namespace Operand

def indexed (x : IndexReg) : Operand → Option Operand
  | .reg .h => some (.reg (.indexHigh x))
  | .reg .l => some (.reg (.indexLow x))
  | .mem .hl => some (.mem (.displaced x))
  | _ => none

def orIndexed (x : IndexReg) (o : Operand) : Operand := (o.indexed x).getD o

end Operand

namespace Instruction

/-- HL replaced by an index register in both operands of a load. Beside a byte in memory,
H and L stay themselves. -/
def indexedLoad (x : IndexReg) (dst src : Operand) : Option Instruction :=
  match dst, src with
  | .mem .hl, src => some (.load (.mem (.displaced x)) src)
  | dst, .mem .hl => some (.load dst (.mem (.displaced x)))
  | dst, src =>
    if (dst.indexed x).isSome || (src.indexed x).isSome then
      some (.load (dst.orIndexed x) (src.orIndexed x))
    else none

/-- The instruction with HL replaced by an index register, or `none` when it does not name HL.
The exchange of DE and HL and the exchange of the register sets always mean HL itself. -/
def indexed (x : IndexReg) : Instruction → Option Instruction
  | .exchangeStack r => (r.indexed x).map .exchangeStack
  | .load dst src => indexedLoad x dst src
  | .loadImmediate dst => (dst.indexed x).map .loadImmediate
  | .loadWord r => (r.indexed x).map .loadWord
  | .loadWordAt r => (r.indexed x).map .loadWordAt
  | .storeWordAt r => (r.indexed x).map .storeWordAt
  | .loadStackPointer r => (r.indexed x).map .loadStackPointer
  | .push r => (r.indexed x).map .push
  | .pop r => (r.indexed x).map .pop
  | .inc o => (o.indexed x).map .inc
  | .dec o => (o.indexed x).map .dec
  | .incWord r => (r.indexed x).map .incWord
  | .decWord r => (r.indexed x).map .decWord
  | .addWord dst src => (dst.indexed x).map (.addWord · ((src.indexed x).getD src))
  | .alu op src => (src.indexed x).map (.alu op)
  | .jumpTo r => (r.indexed x).map .jumpTo
  | .bitPage => some (.indexedBitPage x)
  | _ => none

end Instruction

inductive BitOp where
  | shift (s : Shift)
  | test (n : Fin 8)
  | reset (n : Fin 8)
  | set (n : Fin 8)
  deriving DecidableEq

/-- The operation an opcode of the bit page selects; its operand is the opcode's column. -/
def BitOp.decode (op : UInt8) : BitOp :=
  match opcodeGroup op with
  | 0 => .shift (.ofCode (opcodeRow op))
  | 1 => .test (opcodeRow op)
  | 2 => .reset (opcodeRow op)
  | _ => .set (opcodeRow op)

inductive Direction where
  | forward
  | backward
  deriving DecidableEq

inductive BlockOp where
  | transfer
  | compare
  | input
  | output
  deriving DecidableEq

inductive Extended where
  /-- Without a register, only the flags are set. -/
  | input (r : Option Reg8)
  /-- Without a register, zero is sent. -/
  | output (r : Option Reg8)
  | subWord (r : Reg16)
  | addWord (r : Reg16)
  | storeWordAt (r : Reg16)
  | loadWordAt (r : Reg16)
  | negate
  | returnInterrupt
  | interruptMode (im : UInt8)
  | storeI
  | storeR
  | loadI
  | loadR
  | rotateDigitsRight
  | rotateDigitsLeft
  | block (op : BlockOp) (dir : Direction) (repeated : Bool)
  | nop
  deriving DecidableEq

def Extended.decode (op : UInt8) : Extended :=
  let row := opcodeRow op
  let column := opcodeColumn op
  match opcodeGroup op with
  | 1 =>
    match column with
    | 0 => .input (Reg8.ofCode? row)
    | 1 => .output (Reg8.ofCode? row)
    | 2 => if row.val % 2 = 0 then .subWord (.ofRow row) else .addWord (.ofRow row)
    | 3 => if row.val % 2 = 0 then .storeWordAt (.ofRow row) else .loadWordAt (.ofRow row)
    | 4 => .negate
    | 5 => .returnInterrupt
    | 6 =>
      match row with
      | 2 | 6 => .interruptMode 1
      | 3 | 7 => .interruptMode 2
      | _ => .interruptMode 0
    | _ =>
      match row with
      | 0 => .storeI
      | 1 => .storeR
      | 2 => .loadI
      | 3 => .loadR
      | 4 => .rotateDigitsRight
      | 5 => .rotateDigitsLeft
      | _ => .nop
  | 2 =>
    if row.val < 4 then .nop
    else
      let dir := if row.val % 2 = 0 then .forward else .backward
      let repeated := decide (6 ≤ row.val)
      match column with
      | 0 => .block .transfer dir repeated
      | 1 => .block .compare dir repeated
      | 2 => .block .input dir repeated
      | 3 => .block .output dir repeated
      | _ => .nop
  | _ => .nop

end Zx81.Z80
