import RouteCatalog.Text.Numeral
import RouteCatalog.Yaml.Timestamp

/-!
# Tags

A tag says what kind of value a node denotes. Tags are written in full or found: a scalar that is
neither quoted nor tagged is taken for a truth value, a number, a time, null or a string by its form
alone. `Tag.ofPlain` decides this, for reading as well as for writing: a string whose form has
another tag needs quotes.
-/

namespace RouteCatalog.Yaml

/-- What kind of value a node denotes. -/
inductive Tag
  | null
  | bool
  | int
  | float
  | str
  | binary
  | timestamp
  | seq
  | map
  | set
  /-- An ordered mapping without equal keys. -/
  | omap
  /-- An ordered mapping. -/
  | pairs
  /-- The key of mappings that are merged into a mapping. -/
  | merge
  /-- The key of the value that stands for a mapping. -/
  | value
  /-- A tag without a meaning. -/
  | foreign (name : Text)
  deriving DecidableEq

namespace Tag

/-- The beginning of the names of the tags that have a meaning. -/
def standard : Text := "tag:yaml.org,2002:"

/-- The tags that have a meaning, with the ends of their names. -/
def known : List (Text × Tag) :=
  [("null", .null), ("bool", .bool), ("int", .int), ("float", .float), ("str", .str),
    ("binary", .binary), ("timestamp", .timestamp), ("seq", .seq), ("map", .map), ("set", .set),
    ("omap", .omap), ("pairs", .pairs), ("merge", .merge), ("value", .value)]

def ofName (name : Text) : Tag :=
  match Text.dropLiteral? standard name with
  | some suffix => (known.lookup suffix).getD (.foreign name)
  | none => .foreign name

def short (tag : Tag) : Text :=
  match known.find? fun (_, t) ↦ t = tag, tag with
  | some (suffix, _), _ => "!!" ++ suffix
  | none, .foreign name => "!<" ++ name ++ ">"
  | none, _ => []

/-! ## The form of a scalar -/

def isDigitOrBar (c : CodePoint) : Bool := c.isAsciiDigit || c = '_'

def truthWords : List Text :=
  ["yes", "Yes", "YES", "no", "No", "NO", "true", "True", "TRUE", "false", "False", "FALSE",
    "on", "On", "ON", "off", "Off", "OFF"]

def nullWords : List Text := ["~", "null", "Null", "NULL"]

/-- A number below sixty: one digit, or two of which the first is at most five. -/
def isSixtieth : Text → Bool
  | [a] => a.isAsciiDigit
  | [a, b] => a.between 0x30 0x35 && b.isAsciiDigit
  | _ => false

/-- Digits and underscores that start with a digit. -/
def isNumeral : Text → Bool
  | [] => false
  | c :: t => c.isAsciiDigit && t.all isDigitOrBar

/-- Numbers between colons, all but the first below sixty. -/
def isSixties (t : Text) : Bool :=
  match t.splitOn ':' with
  | [] => false
  | first :: rest => isNumeral first && rest.all isSixtieth

/-- One character at least, all in a class. -/
def isSome (inClass : CodePoint → Bool) (t : Text) : Bool := !t.isEmpty && t.all inClass

/-- The form of an integer: in base two, sixteen, eight or ten, or with numbers in base sixty
between colons. -/
def isInt (t : Text) : Bool :=
  let (_, body) := Numeral.splitSign t
  match Text.dropLiteral? "0b" body, Text.dropLiteral? "0x" body, Text.dropLiteral? "0" body with
  | some digits, _, _ => isSome (fun (c : CodePoint) ↦ c = '0' || c = '1' || c = '_') digits
  | _, some digits, _ => isSome (fun (c : CodePoint) ↦ c.hexValue?.isSome || c = '_') digits
  | _, _, some digits => digits.all fun (c : CodePoint) ↦ c.between 0x30 0x37 || c = '_'
  | _, _, _ => isSixties body

/-- What ends a floating-point number after its digits: nothing, or an exponent with a sign. -/
def isExponent : Text → Bool
  | [] => true
  | [_] => false
  | e :: sign :: digits =>
    (e = 'e' || e = 'E') && (sign = '-' || sign = '+') && isSome CodePoint.isAsciiDigit digits

/-- The form of a floating-point number. A point is required, an exponent needs its sign. -/
def isFloat (t : Text) : Bool :=
  let (_, body) := Numeral.splitSign t
  match Text.breakAt? "." body with
  | none => false
  | some (whole, rest) =>
    let exponent := rest.dropWhile isDigitOrBar
    if whole.isEmpty then
      ([("inf" : Text), "Inf", "INF"].contains rest) ||
        (body = t && ([("nan" : Text), "NaN", "NAN"].contains rest ||
          (isNumeral (rest.takeWhile isDigitOrBar) && isExponent exponent)))
    else if isNumeral whole then isExponent exponent
    else isSixties whole && exponent.isEmpty

/-- The tag of a scalar that is neither quoted nor tagged. A line feed at its end does not count. -/
def ofPlain (t : Text) : Tag :=
  let body := Timestamp.withoutLineFeed t
  if t.isEmpty then .null
  else if truthWords.contains body then .bool
  else if isFloat body then .float
  else if isInt body then .int
  else if body = ("<<" : Text) then .merge
  else if nullWords.contains body then .null
  else if Timestamp.isPlain t then .timestamp
  else if body = ("=" : Text) then .value
  else if [("!" : Text), "&", "*"].contains body then .foreign (standard ++ ("yaml" : Text))
  else .str

end Tag

end RouteCatalog.Yaml
