import RouteCatalog.Number.Binary64

/-!
# Reading floating-point numerals

A floating-point number in free text: blanks at both ends, a sign, and either decimal digits of any
script with at most one point among them and perhaps an exponent, or the name of infinity or of
not-a-number in letters of ASCII.
-/

namespace RouteCatalog.Binary64

/-- The decimal digits at the front of a text, and the rest. -/
def spanDigits : Text → List Nat × Text
  | [] => ([], [])
  | c :: t =>
    match c.digit? with
    | some d => (d :: (spanDigits t).1, (spanDigits t).2)
    | none => ([], c :: t)

/-- A letter of ASCII in lower case; other characters stay. -/
def lowerLetter (c : CodePoint) : CodePoint :=
  if c.between 0x41 0x5A then .ofNat (c.toNat + 0x20) else c

/-- The exponent that ends a numeral; a numeral may end without one. -/
def exponent? : Text → Option Int
  | [] => some 0
  | c :: t =>
    if lowerLetter c = 'e' then
      let (negative, t) := Numeral.splitSign t
      match spanDigits t with
      | (d :: ds, []) =>
        let n := Numeral.value 10 (d :: ds)
        some (if negative then -(n : Int) else n)
      | _ => none
    else none

/-- The fractional digits after a point, and the rest. -/
def fractionDigits : Text → List Nat × Text
  | [] => ([], [])
  | c :: t => if c = '.' then spanDigits t else ([], c :: t)

def read? (t : Text) : Option Binary64 :=
  let (negative, body) := Numeral.splitSign (Numeral.unpad t)
  let word := body.map lowerLetter
  if word = ("inf" : Text) || word = ("infinity" : Text) then some (.infinite negative)
  else if word = ("nan" : Text) then some .nan
  else
    let (whole, rest) := spanDigits body
    let (fraction, rest) := fractionDigits rest
    if whole.isEmpty && fraction.isEmpty then none
    else (exponent? rest).map fun e ↦
      .ofDecimal negative (Numeral.value 10 (whole ++ fraction)) (e - (fraction.length : Int))

end RouteCatalog.Binary64
