import RouteCatalog.Json.Display
import RouteCatalog.Json.Writer

/-!
# Values that cannot be written

Two things end the writing of a value: an integer with more digits than a numeral may have, and
containers that nest too deeply. The first of them on the way through the value is reported.

How much nesting is too much depends on the caller. Reading and writing are recursive, and one limit
holds for all calls that are open at once, also for those that led there. `Json.maxDepth` and
`Writing.maxDepth` are approximations for a program that is well inside that limit when it starts to
read or to write. They keep two relations that do not depend on the caller: what was read can be
written, also inside a catalog, and a catalog may nest four levels more than one of its values on a
line.
-/

namespace RouteCatalog.Json

/-- A way to write a value: on one line, in the layout of the persisted file, or as a literal. -/
inductive Writing
  | line
  | layout
  | literal
  deriving DecidableEq

namespace Writing

/-- About the most containers inside each other that are written. -/
def maxDepth : Writing → Nat
  | .line | .literal => 953
  | .layout => 957

def text : Writing → Json → Text
  | .line, v => v.compact
  | .layout, v => v.indented 0
  | .literal, v => v.literal

end Writing

/-- Why a value is not written. -/
inductive Unwritable
  | longInteger
  | tooDeep (w : Writing)
  deriving DecidableEq

def Unwritable.message : Unwritable → Text
  | .longInteger =>
    "Exceeds the limit (4300 digits) for integer string conversion; " ++
      "use sys.set_int_max_str_digits() to increase the limit"
  | .tooDeep .line => "maximum recursion depth exceeded while encoding a JSON object"
  | .tooDeep .layout => "maximum recursion depth exceeded"
  | .tooDeep .literal => "maximum recursion depth exceeded while getting the repr of an object"

/-- The integer has more digits than a numeral may have. -/
def isLong (i : Int) : Bool := Numeral.maxDigits < (Nat.toDigits 10 i.natAbs).length

mutual

/-- The first fault on the way through a value, when so many levels of containers are left. -/
def fault? (w : Writing) (levels : Nat) : Json → Option Unwritable
  | .int i => if isLong i then some .longInteger else none
  | .arr items => if levels = 0 then some (.tooDeep w) else itemsFault? w (levels - 1) items
  | .obj members => if levels = 0 then some (.tooDeep w) else membersFault? w (levels - 1) members
  | _ => none

def itemsFault? (w : Writing) (levels : Nat) : List Json → Option Unwritable
  | [] => none
  | v :: rest => (fault? w levels v).or (itemsFault? w levels rest)

def membersFault? (w : Writing) (levels : Nat) : List (Text × Json) → Option Unwritable
  | [] => none
  | (_, v) :: rest => (fault? w levels v).or (membersFault? w levels rest)

end

def write (w : Writing) (v : Json) : Except Unwritable Text :=
  match fault? w w.maxDepth v with
  | some why => .error why
  | none => .ok (w.text v)

/-- The one-line text that does not depend on the order of members. -/
def canonical (v : Json) : Except Unwritable Text := write .line v.sorted

/-- The text of a value inside another text: a string stands for itself. -/
def display : Json → Except Unwritable Text
  | .str t => .ok t
  | v => write .literal v

end RouteCatalog.Json
