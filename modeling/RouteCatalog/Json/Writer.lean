import RouteCatalog.Json.Value

/-!
# Writing JSON

Values are written in ASCII: what lies outside is escaped by UTF-16 unit, so a code point beyond
`U+FFFF` takes two escapes and a lone surrogate one. There are two layouts, one line with a blank
after each comma and colon, and the layout of the persisted file, with one item or member a line and
two blanks of indentation a level. `sorted` puts members in the order of their keys; two values have
one sorted text when they differ in the order of members only.
-/

namespace RouteCatalog.Json

def escapeUnit (n : Nat) : Text := "\\u" ++ Text.ofHex 4 n

/-- A character inside a written string. -/
def escapeChar (c : CodePoint) : Text :=
  if c = '"' || c = '\\' then [CodePoint.ofChar '\\', c]
  else if c = '\n' then "\\n"
  else if c = '\r' then "\\r"
  else if c = '\t' then "\\t"
  else if c.toNat = 0x8 then "\\b"
  else if c.toNat = 0xC then "\\f"
  else if c.between 0x20 0x7E then [c]
  else if c.toNat < 0x10000 then escapeUnit c.toNat
  else
    let n := c.toNat - 0x10000
    escapeUnit (0xD800 + n / 0x400) ++ escapeUnit (0xDC00 + n % 0x400)

/-- A written string. -/
def quote (t : Text) : Text :=
  (CodePoint.ofChar '"') :: (t.flatMap escapeChar ++ [(CodePoint.ofChar '"')])

/-- A written number; the special ones are words. -/
def numberText : Binary64 → Text
  | .nan => "NaN"
  | .infinite negative => if negative then "-Infinity" else "Infinity"
  | x => x.text

/-- A written value that holds no others. -/
def scalarText : Json → Text
  | .null => "null"
  | .bool b => if b then "true" else "false"
  | .int i => Text.ofInt i
  | .float x => numberText x
  | .str t => quote t
  | .arr _ => "[]"
  | .obj _ => "\x7b\x7d"

mutual

/-- The value on one line. -/
def compact : Json → Text
  | .arr [] => "[]"
  | .arr (v :: rest) => CodePoint.ofChar '[' :: (compact v ++ compactItems rest)
  | .obj [] => "\x7b\x7d"
  | .obj ((k, v) :: rest) =>
    CodePoint.ofChar '{' :: (quote k ++ ": " ++ compact v ++ compactMembers rest)
  | v => scalarText v

/-- The items of an array after the first, and its end. -/
def compactItems : List Json → Text
  | [] => "]"
  | v :: rest => ", " ++ compact v ++ compactItems rest

/-- The members of an object after the first, and its end. -/
def compactMembers : List (Text × Json) → Text
  | [] => "\x7d"
  | (k, v) :: rest => ", " ++ quote k ++ ": " ++ compact v ++ compactMembers rest

end

/-- The end of a line and the indentation of the next. -/
def newLine (level : Nat) : Text :=
  CodePoint.ofChar '\n' :: List.replicate (2 * level) (CodePoint.ofChar ' ')

mutual

/-- The value in the layout of the persisted file, at a level of indentation. -/
def indented (level : Nat) : Json → Text
  | .arr [] => "[]"
  | .arr (v :: rest) =>
    CodePoint.ofChar '[' :: (newLine (level + 1) ++ indented (level + 1) v ++
      indentedItems level rest)
  | .obj [] => "\x7b\x7d"
  | .obj ((k, v) :: rest) =>
    CodePoint.ofChar '{' :: (newLine (level + 1) ++ quote k ++ ": " ++ indented (level + 1) v ++
      indentedMembers level rest)
  | v => scalarText v

/-- The items of an array after the first, and its end. -/
def indentedItems (level : Nat) : List Json → Text
  | [] => newLine level ++ "]"
  | v :: rest =>
    CodePoint.ofChar ',' :: (newLine (level + 1) ++ indented (level + 1) v ++
      indentedItems level rest)

/-- The members of an object after the first, and its end. -/
def indentedMembers (level : Nat) : List (Text × Json) → Text
  | [] => newLine level ++ "\x7d"
  | (k, v) :: rest =>
    CodePoint.ofChar ',' :: (newLine (level + 1) ++ quote k ++ ": " ++ indented (level + 1) v ++
      indentedMembers level rest)

end

/-- Members in the order of their keys. -/
def sortMembers (members : List (Text × Json)) : List (Text × Json) :=
  members.mergeSort fun a b ↦ Text.le a.1 b.1

mutual

/-- The value with the members of every object in the order of their keys. -/
def sorted : Json → Json
  | .arr items => .arr (sortedItems items)
  | .obj members => .obj (sortMembers (sortedMembers members))
  | v => v

/-- The items of an array, each sorted. -/
def sortedItems : List Json → List Json
  | [] => []
  | v :: rest => sorted v :: sortedItems rest

/-- The members of an object, each value sorted. -/
def sortedMembers : List (Text × Json) → List (Text × Json)
  | [] => []
  | (k, v) :: rest => (k, sorted v) :: sortedMembers rest

end
end RouteCatalog.Json
