namespace Zx81.Z80

inductive Half where
  | high
  | low
  deriving DecidableEq

/-- An edit of a byte or a word. -/
inductive Edit (α : Type) where
  | set (v : α)
  | inc
  | dec
  | postInc
  | postDec
  | and (mask : α)
  | or (bits : α)
  | add (v : α)
  deriving DecidableEq

namespace Edit

variable {α : Type} [Add α] [Sub α] [AndOp α] [OrOp α] [OfNat α 1]

def result : Edit α → α → α
  | set v, _ => v
  | inc, x | postInc, x => x + 1
  | dec, x | postDec, x => x - 1
  | and mask, x => x &&& mask
  | or bits, x => x ||| bits
  | add v, x => x + v

/-- What an edit answers: the new value, or the old one, or nothing. -/
def answer? : Edit α → α → Option α
  | set _, _ | and _, _ | or _, _ => none
  | postInc, x | postDec, x => some x
  | e, x => some (e.result x)

end Edit

/-- A register pair, such as B and C. -/
@[ext] structure Pair where
  hi : UInt8 := 0
  lo : UInt8 := 0
  deriving DecidableEq, Inhabited

namespace Pair

def word (p : Pair) : UInt16 := 256 * p.hi.toUInt16 + p.lo.toUInt16

def ofWord (w : UInt16) : Pair := ⟨(w / 256).toUInt8, w.toUInt8⟩

def half (p : Pair) : Half → UInt8
  | .high => p.hi
  | .low => p.lo

def withHalf (p : Pair) : Half → UInt8 → Pair
  | .high, v => { p with hi := v }
  | .low, v => { p with lo := v }

def edit (p : Pair) (e : Edit UInt16) : Pair := ofWord (e.result p.word)

/-- Edits one byte; nothing is carried into the other. -/
def editHalf (p : Pair) (h : Half) (e : Edit UInt8) : Pair := p.withHalf h (e.result (p.half h))

theorem toNat_word (p : Pair) : p.word.toNat = 256 * p.hi.toNat + p.lo.toNat := by
  have h := p.hi.toNat_lt
  have l := p.lo.toNat_lt
  simp only [word, UInt16.toNat_add, UInt16.toNat_mul, UInt8.toNat_toUInt16, UInt16.reduceToNat]
  omega

@[simp] theorem word_ofWord (w : UInt16) : (ofWord w).word = w := by
  apply UInt16.toNat_inj.1
  have h := w.toNat_lt
  rw [toNat_word]
  simp only [ofWord, UInt16.toNat_toUInt8, UInt16.toNat_div, UInt16.reduceToNat]
  omega

@[simp] theorem ofWord_word (p : Pair) : ofWord p.word = p := by
  have h := p.hi.toNat_lt
  have l := p.lo.toNat_lt
  ext1 <;> apply UInt8.toNat_inj.1 <;>
    simp only [ofWord, UInt16.toNat_toUInt8, UInt16.toNat_div, UInt16.reduceToNat, toNat_word] <;>
    omega

@[simp] theorem half_withHalf (p : Pair) (h : Half) (v : UInt8) : (p.withHalf h v).half h = v := by
  cases h <;> rfl

theorem half_editHalf (p : Pair) (h h' : Half) (e : Edit UInt8) :
    (p.editHalf h e).half h' = if h' = h then e.result (p.half h) else p.half h' := by
  cases h <;> cases h' <;> rfl

end Pair
end Zx81.Z80
