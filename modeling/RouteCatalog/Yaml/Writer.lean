import RouteCatalog.Text.Base64
import RouteCatalog.Yaml.Style
import RouteCatalog.Yaml.Value

/-!
# Writing YAML

Mappings are written by indentation, two columns for each level; the items of a sequence under a key
stand in the column of the key. A collection inside an item starts on the line of the item. A key
that is not simple is marked by a question mark and takes a line of its own.

A value is written together with the separator before it and the line end after it, so that the text
of a collection is just that of its parts.
-/

namespace RouteCatalog.Yaml

/-- The text of a floating-point number: the shortest one that reads back, with a point. -/
def floatText (x : Binary64) : Text :=
  match x with
  | .nan => ".nan"
  | .infinite negative => if negative then "-.inf" else ".inf"
  | .finite _ _ =>
    let t := x.text
    if t.contains (CodePoint.ofChar '.') then t
    else match Text.breakAt? "e" t with
      | some (digits, exponent) => digits ++ ".0e" ++ exponent
      | none => t

/-- The tag and the text of a value that is written as a scalar. -/
def scalarForm? : Yaml → Option (Tag × Text)
  | .null => some (.null, "null")
  | .bool b => some (.bool, if b then "true" else "false")
  | .int i => some (.int, Text.ofInt i)
  | .float x => some (.float, floatText x)
  | .str t => some (.str, t)
  | .date d => some (.timestamp, d.text)
  | .time t => some (.timestamp, t.text " ")
  | _ => none

def maxSimpleKey : Nat := 127

/-- The text of a key that stands in front of a colon, when it is simple. -/
def simpleKey? (key : Yaml) : Option Text :=
  match scalarForm? key with
  | none => none
  | some (tag, t) =>
    if t.isEmpty || Style.isMultiline t || maxSimpleKey < tag.short.length + t.length then none
    else some (Style.key (Tag.ofPlain t = tag) t)

/-- Pieces of `size` characters, the last of which may be shorter; one for each unit of `fuel`. -/
def pieces (size : Nat) : (fuel : Nat) → Text → List Text
  | 0, _ => []
  | fuel + 1, t => if t.isEmpty then [] else t.take size :: pieces size fuel (t.drop size)

/-- Binary data: lines of 76 characters. -/
def binaryText (indent : Nat) (data : Bytes) : Text :=
  if data.isEmpty then " !!binary \"\"\n"
  else
    let t := Base64.encode data
    let line (t : Text) : Text := margin indent ++ t ++ "\n"
    " !!binary |\n" ++ (pieces 76 t.length t).flatMap line

/-- What stands before a nested collection: it starts on the same line, or on the next one. -/
def opening (sameLine : Bool) (indent : Nat) : Text :=
  if sameLine then " " else "\n" ++ margin indent

mutual

/-- What follows a mark at `column` in a collection at column `indent`; `sameLine` holds where a
collection may start on the line of the mark. -/
def written (indent column : Nat) (sameLine : Bool) : Yaml → Text
  | .seq [] => " []\n"
  | .seq (v :: rest) =>
    let inner := if sameLine then indent + 2 else indent
    opening sameLine inner ++ "-" ++ written inner (inner + 1) true v ++ writtenItems inner rest
  | .pair k v =>
    let inner := if sameLine then indent + 2 else indent
    opening sameLine inner ++ "-" ++ written inner (inner + 1) true k ++
      margin inner ++ "-" ++ written inner (inner + 1) true v
  | .map [] => " \x7b\x7d\n"
  | .map (e :: rest) =>
    opening sameLine (indent + 2) ++ writtenEntry (indent + 2) e ++
      writtenEntries (indent + 2) rest
  | .set [] => " !!set \x7b\x7d\n"
  | .set items => " !!set\n" ++ writtenKeys (indent + 2) items
  | .bytes data => binaryText (indent + 2) data
  | v =>
    match scalarForm? v with
    | some (tag, t) =>
      " " ++ Style.value (Tag.ofPlain t = tag) (indent + 2) (column + 1) t ++ "\n"
    | none => "\n"

def writtenItems (indent : Nat) : List Yaml → Text
  | [] => []
  | v :: rest =>
    margin indent ++ "-" ++ written indent (indent + 1) true v ++ writtenItems indent rest

/-- An entry whose key starts at a column. -/
def writtenEntry (indent : Nat) : Yaml × Yaml → Text
  | (k, v) =>
    match simpleKey? k with
    | some key => key ++ ":" ++ written indent (indent + key.length + 1) false v
    | none =>
      "?" ++ written indent (indent + 1) true k ++ margin indent ++ ":" ++
        written indent (indent + 1) true v

def writtenEntries (indent : Nat) : List (Yaml × Yaml) → Text
  | [] => []
  | e :: rest => margin indent ++ writtenEntry indent e ++ writtenEntries indent rest

/-- Keys without values at a column. -/
def writtenKeys (indent : Nat) : List Yaml → Text
  | [] => []
  | k :: rest =>
    let entry : Text :=
      match simpleKey? k with
      | some key => key ++ ": null\n"
      | none => "?" ++ written indent (indent + 1) true k ++ margin indent ++ ": null\n"
    margin indent ++ entry ++ writtenKeys indent rest

end

/-- The text of a document that is a mapping. -/
def write (entries : List (Yaml × Yaml)) : Text :=
  if entries.isEmpty then "\x7b\x7d\n" else writtenEntries 0 entries

end RouteCatalog.Yaml
