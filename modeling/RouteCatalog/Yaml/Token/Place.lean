import RouteCatalog.Yaml.Token.Basic

/-!
# Places

Where a character stands: how many characters precede it, in which line it is, and in which column
of the line. A byte order mark takes no column.
-/

namespace RouteCatalog.Yaml.Token

/-- A place in a text. -/
structure Place where
  /-- The number of characters before it. -/
  offset : Nat
  /-- The number of lines before its own. -/
  line : Nat
  /-- The number of columns before it in its line. -/
  column : Nat
  deriving DecidableEq

namespace Place

/-- The place of the first character. -/
def start : Place := ⟨0, 0, 0⟩

/-- The place after one more character. -/
def next (p : Place) (c : CodePoint) : Place :=
  if isBreak c then ⟨p.offset + 1, p.line + 1, 0⟩
  else ⟨p.offset + 1, p.line, if c.toNat = 0xFEFF then p.column else p.column + 1⟩

def after (p : Place) (t : Text) : Place := t.foldl next p

@[simp] theorem after_cons (p : Place) (c : CodePoint) (t : Text) :
    p.after (c :: t) = (p.next c).after t := rfl

theorem after_append (p : Place) (s t : Text) : p.after (s ++ t) = (p.after s).after t := by
  simp [after]

end Place

end RouteCatalog.Yaml.Token
