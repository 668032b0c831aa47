import RouteCatalog.Text.CodePoint

/-!
# Blank characters

White space of any script, with the separators `U+001C` to `U+001F` and the next-line control. The
patterns of this library skip blanks of this class; a format with a narrower one says so itself.
-/

namespace RouteCatalog

/-- The ranges of blank characters, in increasing order. -/
def CodePoint.blankRanges : List (Nat × Nat) :=
  [(0x9, 0xD), (0x1C, 0x20), (0x85, 0x85), (0xA0, 0xA0), (0x1680, 0x1680), (0x2000, 0x200A),
    (0x2028, 0x2029), (0x202F, 0x202F), (0x205F, 0x205F), (0x3000, 0x3000)]

def CodePoint.isBlank (c : CodePoint) : Bool := c.inRanges blankRanges

namespace Text

/-- The text without the blanks at its front. -/
def trimLeft (t : Text) : Text := t.dropWhile CodePoint.isBlank

/-- The text without the blanks at its end: a character is kept when some character from it on is
not blank. -/
def trimRight : Text → Text
  | [] => []
  | c :: t =>
    match trimRight t with
    | [] => if c.isBlank then [] else [c]
    | rest => c :: rest

/-- The text without the blanks at both ends. -/
def trim (t : Text) : Text := trimRight (trimLeft t)

/-- Nothing but blanks. -/
def isBlank (t : Text) : Bool := t.all CodePoint.isBlank

end Text

end RouteCatalog
