namespace Zx81.Text

/-- Adds a value to runs in reverse order. -/
def addToRuns {α : Type} [BEq α] : List (Nat × α) → α → List (Nat × α)
  | (n, y) :: rest, x => if y == x then (n + 1, y) :: rest else (1, x) :: (n, y) :: rest
  | [], x => [(1, x)]

def runs {α : Type} [BEq α] (xs : List α) : List (Nat × α) := (xs.foldl addToRuns []).reverse

/-- The list that runs stand for. -/
def unfold {α : Type} (rs : List (Nat × α)) : List α :=
  rs.flatMap fun (n, x) => List.replicate n x

private theorem unfold_addToRuns {α : Type} [BEq α] [LawfulBEq α] (rs : List (Nat × α)) (x : α) :
    unfold (addToRuns rs x).reverse = unfold rs.reverse ++ [x] := by
  cases rs with
  | nil => rfl
  | cons r rest =>
    obtain ⟨n, y⟩ := r
    by_cases h : y == x
    · have e : y = x := eq_of_beq h
      simp [addToRuns, unfold, e, List.replicate_succ']
    · simp [addToRuns, unfold, h]

/-- Folding loses nothing. -/
theorem unfold_runs {α : Type} [BEq α] [LawfulBEq α] (xs : List α) : unfold (runs xs) = xs := by
  have main : ∀ (ys : List α) (rs : List (Nat × α)),
      unfold (ys.foldl addToRuns rs).reverse = unfold rs.reverse ++ ys := by
    intro ys
    induction ys with
    | nil => simp
    | cons y ys ih =>
      intro rs
      rw [List.foldl_cons, ih, unfold_addToRuns, List.append_assoc]
      rfl
  simpa [runs, unfold] using main xs []

def runsOfBytes (xs : List UInt8) : String :=
  ",".intercalate ((runs xs).map fun (n, v) => Nat.repr n ++ "x" ++ Nat.repr v.toNat)

def bytesOfRun (run : String) : Option (List UInt8) :=
  match run.splitOn "x" with
  | [n, v] =>
    match n.toNat?, v.toNat? with
    | some n, some v => some (List.replicate n (UInt8.ofNat v))
    | _, _ => none
  | _ => none

def bytesOfRuns (s : String) : Option (List UInt8) :=
  if s.isEmpty then some [] else ((s.splitOn ",").mapM bytesOfRun).map List.flatten

end Zx81.Text
