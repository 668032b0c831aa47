import RouteCatalog.Number.Shortest
import RouteCatalog.Text.Utf8
import RouteCatalog.Yaml.Timestamp

/-!
# YAML values

What a YAML document denotes, and the values that settings may take. Mappings keep the order in
which their keys first appeared. Keys are compared as values: truth values count as the numbers zero
and one, and numbers of different kinds are equal when they denote the same number.
-/

namespace RouteCatalog

/-- A YAML value. -/
inductive Yaml
  | null
  | bool (value : Bool)
  | int (value : Int)
  | float (value : Binary64)
  | str (value : Text)
  | bytes (value : Bytes)
  | date (value : Yaml.Date)
  | time (value : Yaml.Time)
  | seq (items : List Yaml)
  | pair (key value : Yaml)
  | map (entries : List (Yaml × Yaml))
  | set (items : List Yaml)

namespace Yaml

instance : Inhabited Yaml := ⟨.null⟩

/-- The name of a kind of value, as messages give it. -/
def kindName : Yaml → Text
  | .null => "NoneType"
  | .bool _ => "bool"
  | .int _ => "int"
  | .float _ => "float"
  | .str _ => "str"
  | .bytes _ => "bytes"
  | .date _ => "datetime.date"
  | .time _ => "datetime.datetime"
  | .seq _ => "list"
  | .pair _ _ => "tuple"
  | .map _ => "dict"
  | .set _ => "set"

def units? : Yaml → Option Int
  | .bool b => some (if b then Magnitude.one else 0)
  | .int i => some (i * Magnitude.one)
  | .float (.finite negative m) => some (Binary64.units negative m)
  | _ => none

/-- Two keys are the same key. Not-a-number is no key twice. -/
def sameKey (a b : Yaml) : Bool :=
  match a.units?, b.units? with
  | some m, some n => m = n
  | _, _ =>
    match a, b with
    | .null, .null => true
    | .str s, .str t => s = t
    | .bytes s, .bytes t => s = t
    | .date d, .date e => d = e
    | .time d, .time e => Timestamp.sameInstant d e
    | .float (.infinite m), .float (.infinite n) => m = n
    | _, _ => false

/-- Sets an entry: a known key keeps its place and its form, and takes the new value. -/
def setEntry (key value : Yaml) : List (Yaml × Yaml) → List (Yaml × Yaml)
  | [] => [(key, value)]
  | (k, v) :: rest =>
    if sameKey k key then (k, value) :: rest else (k, v) :: setEntry key value rest

def entriesOf (pairs : List (Yaml × Yaml)) : List (Yaml × Yaml) :=
  pairs.foldl (fun done (k, v) ↦ setEntry k v done) []

/-- The value of a key that is a string. -/
def entry? (key : Text) : List (Yaml × Yaml) → Option Yaml
  | [] => none
  | (.str k, v) :: rest => if k = key then some v else entry? key rest
  | _ :: rest => entry? key rest

/-- A value that stands for truth: one that is not null, false, zero or empty. -/
def isTrue : Yaml → Bool
  | .null => false
  | .bool b => b
  | .int i => i ≠ 0
  | .float x => !x.isZero
  | .str t => !t.isEmpty
  | .bytes b => !b.isEmpty
  | .date _ | .time _ | .pair _ _ => true
  | .seq items => !items.isEmpty
  | .map entries => !entries.isEmpty
  | .set items => !items.isEmpty

/-! ## Literals -/

/-- The literal of binary data. -/
def bytesLiteral (bytes : Bytes) : Text :=
  let has (n : UInt8) : Bool := bytes.contains n
  let quote : CodePoint := if has 0x27 && !has 0x22 then '"' else '\''
  let one (b : UInt8) : Text :=
    let c := CodePoint.ofNat b.toNat
    if c = quote || c = '\\' then [CodePoint.ofChar '\\', c]
    else if c = '\n' then "\\n"
    else if c = '\r' then "\\r"
    else if c = '\t' then "\\t"
    else if c.between 0x20 0x7E then [c]
    else "\\x" ++ Text.ofHex 2 b.toNat
  CodePoint.ofChar 'b' :: quote :: (bytes.flatMap one ++ [quote])

mutual

def literal : Yaml → Text
  | .null => "None"
  | .bool b => if b then "True" else "False"
  | .int i => Text.ofInt i
  | .float x => x.text
  | .str t => t.quoted
  | .bytes b => bytesLiteral b
  | .date d => d.literal
  | .time t => t.literal
  | .seq [] => "[]"
  | .seq (v :: rest) => "[" ++ literal v ++ literalItems "]" rest
  | .pair k v => "(" ++ literal k ++ ", " ++ literal v ++ ")"
  | .map [] => "\x7b\x7d"
  | .map ((k, v) :: rest) => "\x7b" ++ literal k ++ ": " ++ literal v ++ literalEntries rest
  | .set [] => "set()"
  | .set (v :: rest) => "\x7b" ++ literal v ++ literalItems "\x7d" rest

/-- The items after the first, and the closing bracket. -/
def literalItems (closing : Text) : List Yaml → Text
  | [] => closing
  | v :: rest => ", " ++ literal v ++ literalItems closing rest

/-- The entries after the first, and the closing brace. -/
def literalEntries : List (Yaml × Yaml) → Text
  | [] => "\x7d"
  | (k, v) :: rest => ", " ++ literal k ++ ": " ++ literal v ++ literalEntries rest

end

/-- The text of a value inside a message or an address: strings, days and times stand for
themselves. -/
def display : Yaml → Text
  | .str t => t
  | .date d => d.text
  | .time t => t.text " "
  | v => v.literal

end Yaml

end RouteCatalog
