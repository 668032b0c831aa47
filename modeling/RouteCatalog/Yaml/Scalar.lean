import RouteCatalog.Number.Decimal
import RouteCatalog.Text.Base64
import RouteCatalog.Text.Case
import RouteCatalog.Yaml.Fault
import RouteCatalog.Yaml.Tag
import RouteCatalog.Yaml.Value

/-!
# What scalars denote

A scalar is a text with a tag. The functions here take the text of a scalar to the value of one
kind; they accept a little more than the forms that need no tag, because a tag may be written in
front of any text.
-/

namespace RouteCatalog.Yaml.Scalar

def withoutBars (t : Text) : Text := t.filter (· ≠ CodePoint.ofChar '_')

/-- A truth value, in any case. -/
def truthValue (t : Text) : Except Fault Bool :=
  let word := t.lower
  if [("yes" : Text), "true", "on"].contains word then .ok true
  else if [("no" : Text), "false", "off"].contains word then .ok false
  else .error (.truthValue word)

/-- The numbers between the colons of a numeral in base sixty, as the parts of their sum: each
number with the worth of its place, last place first. -/
def places {α : Type} (numbers : List α) : List (α × Nat) :=
  numbers.reverse.zipIdx.map fun (n, i) ↦ (n, Nat.pow 60 i)

/-- An integer without its sign. -/
def magnitude (t : Text) : Except Fault Int :=
  let readIn (base : Nat) (t : Text) : Except Fault Int :=
    match Numeral.readIn base t with
    | .ok n => .ok n
    | .error fault => .error (.integer fault)
  match t with
  | [] => .error .emptyNumber
  | c :: _ =>
    if t = ("0" : Text) then .ok 0
    else if Text.startsWith "0b" t then readIn 2 (t.drop 2)
    else if Text.startsWith "0x" t then readIn 16 (t.drop 2)
    else if c = '0' then readIn 8 t
    else do
      let parts ← (t.splitOn ':').mapM (readIn 10)
      return (places parts).foldr (fun (n, place) sum ↦ n * place + sum) 0

def integer (t : Text) : Except Fault Int :=
  let t := withoutBars t
  if t.isEmpty then .error .emptyNumber
  else
    let (negative, body) := Numeral.splitSign t
    (magnitude body).map fun n ↦ if negative then -n else n

/-- The sum of floating-point numbers with the worth of their places, last place first. -/
def sumPlaces (parts : List (Binary64 × Nat)) : Except Fault Binary64 :=
  parts.foldlM (fun sum (x, place) ↦
    match Binary64.ofInt place with
    | .infinite _ => .error .hugePlace
    | worth => .ok (sum.add (x.mul worth))) (.ofInt 0)

/-- A floating-point number without its sign. -/
def size (t : Text) : Except Fault Binary64 :=
  let read (t : Text) : Except Fault Binary64 :=
    match Binary64.read? t with
    | some x => .ok x
    | none => .error (.float t)
  if t = (".inf" : Text) then .ok (.infinite false)
  else if t = (".nan" : Text) then .ok .nan
  else if t.contains (CodePoint.ofChar ':') then do sumPlaces (places (← (t.splitOn ':').mapM read))
  else read t

/-- A floating-point number. -/
def float (t : Text) : Except Fault Binary64 :=
  let t := (withoutBars t).lower
  if t.isEmpty then .error .emptyNumber
  else
    let (negative, body) := Numeral.splitSign t
    (size body).map fun x ↦ if negative then x.neg else x

/-- A day or a time. -/
def timestamp (t : Text) : Except Fault Yaml :=
  match Timestamp.written? t with
  | none => .error .notTimestamp
  | some w =>
    let found : Except Timestamp.Fault Yaml :=
      match w.clock with
      | none => (Timestamp.date w.year w.month w.day).map .date
      | some c =>
        (Timestamp.time w.year w.month w.day c.hour c.minute c.second c.micro c.offset).map .time
    match found with
    | .ok v => .ok v
    | .error fault => .error (.timestamp fault)

def binary (t : Text) : Except Fault Bytes :=
  if t.all (·.toNat < 0x80) then
    match Base64.decode? t with
    | some data => .ok data
    | none => .error .malformed
  else .error .malformed

end Scalar

/-- What a scalar with a tag denotes. The tags of collections and of special keys, and tags without
a meaning, give it none. -/
def ofScalar (tag : Tag) (t : Text) : Except Fault Yaml :=
  match tag with
  | .null => .ok .null
  | .bool => (Scalar.truthValue t).map .bool
  | .int => (Scalar.integer t).map .int
  | .float => (Scalar.float t).map .float
  | .str => .ok (.str t)
  | .binary => (Scalar.binary t).map .bytes
  | .timestamp => Scalar.timestamp t
  | _ => .error .malformed

end RouteCatalog.Yaml
