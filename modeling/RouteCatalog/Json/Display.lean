import RouteCatalog.Json.Value
import RouteCatalog.Text.Quoted

/-!
# JSON values as literals

Inside a key or a message values are literals: strings are quoted, and the constants are `None`,
`True` and `False`.
-/

namespace RouteCatalog.Json

mutual

def literal : Json → Text
  | .null => "None"
  | .bool b => if b then "True" else "False"
  | .int i => Text.ofInt i
  | .float x => x.text
  | .str t => t.quoted
  | .arr [] => "[]"
  | .arr (v :: rest) => CodePoint.ofChar '[' :: (literal v ++ literalItems rest)
  | .obj [] => "\x7b\x7d"
  | .obj ((k, v) :: rest) =>
    CodePoint.ofChar '{' :: (k.quoted ++ ": " ++ literal v ++ literalMembers rest)

/-- The items of an array after the first, and its end. -/
def literalItems : List Json → Text
  | [] => "]"
  | v :: rest => ", " ++ literal v ++ literalItems rest

/-- The members of an object after the first, and its end. -/
def literalMembers : List (Text × Json) → Text
  | [] => "\x7d"
  | (k, v) :: rest => ", " ++ k.quoted ++ ": " ++ literal v ++ literalMembers rest

end

/-- The name of a kind of value, as messages give it. -/
def kindName : Json → Text
  | .null => "NoneType"
  | .bool _ => "bool"
  | .int _ => "int"
  | .float _ => "float"
  | .str _ => "str"
  | .arr _ => "list"
  | .obj _ => "dict"

end RouteCatalog.Json
