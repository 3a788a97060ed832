namespace Zx81.Text

/-- The value of a list that has a name. -/
def byName {α : Type} (all : List α) (name : α → String) (s : String) : Option α :=
  all.find? (name · == s)

end Zx81.Text
