import RouteCatalog.Catalog.Basic
import RouteCatalog.Json.Written

/-!
# Reconciliation with an earlier catalog

An endpoint is unchanged when the earlier catalog has an entry with its key that says the same. The
line is positional and left out of the comparison, and the order of members does not matter. Of
earlier entries that share a key the last one counts.

The earlier catalog is arbitrary JSON. Entries that are not objects are passed over, and a missing
or ill-typed verb or path still makes a key. Keys and forms are texts, so a value that cannot be
written, on either side, ends the comparison.
-/

namespace RouteCatalog

namespace Reconcile

/-- Why an earlier catalog cannot be reconciled with. -/
inductive Fault
  | notObject (kind : Text)
  /-- Its endpoints cannot be gone through, being of this kind. -/
  | notIterable (kind : Text)
  | unwritable (why : Json.Unwritable)
  deriving DecidableEq

def Fault.message : Fault → Text
  | .notObject kind => "'" ++ kind ++ "' object has no attribute 'get'"
  | .notIterable kind => "'" ++ kind ++ "' object is not iterable"
  | .unwritable why => why.message

/-- A value that counts as no earlier catalog at all. -/
def isNothing : Json → Bool
  | .null => true
  | .bool b => !b
  | .int i => i = 0
  | .float x => x.isZero
  | .str t => t.isEmpty
  | .arr items => items.isEmpty
  | .obj members => members.isEmpty

def entryKey (members : List (Text × Json)) : Except Json.Unwritable Text := do
  let part (name : Text) := ((Json.member? name members).getD .null).display
  return (← part "method") ++ " " ++ (← part "path")

/-- The form in which entries are compared: the line is left out, members are ordered. -/
def comparisonForm (members : List (Text × Json)) : Except Json.Unwritable Text :=
  (Json.obj (members.filter fun (name, _) ↦ name ≠ "line")).canonical

/-- The key and the form of an earlier entry. -/
def entry (members : List (Text × Json)) : Except Json.Unwritable (Text × Text) := do
  let form ← comparisonForm members
  return (← entryKey members, form)

/-- The values that are objects, in order. -/
def objects (items : List Json) : List (List (Text × Json)) :=
  items.filterMap fun
    | .obj members => some members
    | _ => none

/-- What stands where an earlier catalog has its endpoints; a text or an object there holds no
objects to compare with. -/
def itemsOf : Json → Except Fault (List Json)
  | .obj members =>
    match Json.member? "endpoints" members with
    | none => .ok []
    | some (.arr items) => .ok items
    | some (.str _) => .ok []
    | some (.obj _) => .ok []
    | some v => .error (.notIterable v.kindName)
  | v => .error (.notObject v.kindName)

def lastForm? (entries : List (Text × Text)) (key : Text) : Option Text :=
  (entries.reverse.find? fun e ↦ e.1 = key).map (·.2)

/-- The number of endpoints that are among earlier entries, given by key and form. -/
def countAmong (known : List (Text × Text)) : List Endpoint → Except Json.Unwritable Nat
  | [] => .ok 0
  | e :: rest => do
    let form ← comparisonForm e.members
    let n ← countAmong known rest
    return if lastForm? known e.key = some form then n + 1 else n

/-- The number of endpoints that agree with earlier values. -/
def countIn (items : List Json) (endpoints : List Endpoint) : Except Json.Unwritable Nat := do
  countAmong (← (objects items).mapM entry) endpoints

/-- The number of endpoints that an earlier catalog already has. -/
def countUnchanged (endpoints : List Endpoint) (previous : Json) : Except Fault Nat :=
  if isNothing previous then .ok 0
  else do
    let items ← itemsOf previous
    (countIn items endpoints).mapError .unwritable

end Reconcile

end RouteCatalog
