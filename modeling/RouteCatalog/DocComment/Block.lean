import RouteCatalog.Text.Pattern
import RouteCatalog.Text.Split

/-!
# Documentation comments

A documentation comment opens with a slash and two asterisks and ends at the first asterisk and
slash after them. The comment attached to a declaration is the last one that ends before the
declaration starts. This is a lexical rule: an unrelated comment that stands between the two wins.
-/

namespace RouteCatalog.DocComment

/-- A documentation comment, with its delimiters. -/
def block : Pattern Text := fun _ t ↦ do
  let afterOpening ← Text.dropLiteral? "/**" t
  let (body, rest) ← Text.breakAt? "*/" afterOpening
  return ("/**" ++ body ++ "*/", rest)

/-- The documentation comments of a text, in order. -/
def blocks (content : Text) : List Text := (block.occurrences content).map (·.value)

/-- The last documentation comment that ends at or before an offset; negative offsets count from
the end. -/
def lastBefore (content : Text) (offset : Int) : Option Text :=
  (blocks (content.upTo offset)).getLast?

end RouteCatalog.DocComment
