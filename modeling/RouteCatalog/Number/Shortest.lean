import RouteCatalog.Number.Binary64

/-!
# Shortest decimals

A finite number is written with the fewest significant digits that read back as the same number,
and among those with the digits nearest to it. The search goes through the decimal grids of one to
seventeen digits; on each grid only the two neighbours of the number can be nearest, and whether a
neighbour reads back is checked by reading it. A number that no grid served would be written
exactly, and an exact decimal reads back as itself, so what is written always reads back.

Positional notation is used from `1e-4` up to, but not including, `1e16`; it always shows a
fractional part. Beyond that the exponent has a sign and at least two digits.
-/

namespace RouteCatalog

namespace Magnitude

/-- A decimal `digits * 10 ^ power`. -/
structure Decimal where
  digits : Nat
  /-- The exponent of the last digit. -/
  power : Int
  deriving DecidableEq

/-- The greatest `p` with `10 ^ p ≤ num / den`, for a positive fraction, found near an estimate from
the binary size. -/
def decimalExponent (num den : Nat) : Int :=
  let estimate : Int := ((num.log2 : Int) - den.log2) * 30103 / 100000
  let reaches (p : Int) : Bool :=
    match p with
    | .ofNat p => den * Nat.pow 10 p ≤ num
    | .negSucc p => den ≤ num * Nat.pow 10 (p + 1)
  if reaches (estimate + 2) then estimate + 2
  else if reaches (estimate + 1) then estimate + 1
  else if reaches estimate then estimate
  else if reaches (estimate - 1) then estimate - 1
  else estimate - 2

/-- The decimals of a grid next to the magnitude, the nearer one first; of two equally near ones
the even one is first. -/
def neighbours (m : Magnitude) (power : Int) : List Decimal :=
  let (num, den) : Nat × Nat :=
    match power with
    | .ofNat p => (m.units, one * Nat.pow 10 p)
    | .negSucc p => (m.units * Nat.pow 10 (p + 1), one)
  let below := num / den
  let nearest := roundDiv num den
  let other := if nearest = below then below + 1 else below
  [⟨nearest, power⟩, ⟨other, power⟩]

def readsBack (m : Magnitude) (d : Decimal) : Bool := ofDecimal? d.digits d.power = some m

/-- The first decimal that reads back, on the grids of `count` digits, then one more, and so on, for
`more` grids; without one, the exact decimal. -/
def shortestFrom (m : Magnitude) (exponent : Int) : (more count : Nat) → Decimal
  | 0, _ => ⟨m.units * power 5 1074, -1074⟩
  | more + 1, count =>
    match (m.neighbours (exponent - (count : Int) + 1)).find? m.readsBack with
    | some d => d
    | none => m.shortestFrom exponent more (count + 1)

/-- The shortest decimal that reads back as the magnitude. -/
def shortest (m : Magnitude) : Decimal :=
  if m.mant = 0 then ⟨0, 0⟩
  else m.shortestFrom (decimalExponent m.units one) 17 1

end Magnitude

namespace Binary64

/-- Digits without the zeros at their end. -/
def dropZeros (digits : List Char) : List Char := (digits.reverse.dropWhile (· = '0')).reverse

/-- The numeral with significant digits `digits`, whose decimal point stands `point` places after
the first digit's left edge. -/
def layout (digits : List Char) (point : Int) : List Char :=
  if -4 < point ∧ point ≤ 16 then
    if point ≤ 0 then
      '0' :: '.' :: (List.replicate (-point).toNat '0' ++ digits)
    else
      let whole := point.toNat
      if digits.length ≤ whole then
        digits ++ List.replicate (whole - digits.length) '0' ++ ['.', '0']
      else digits.take whole ++ '.' :: digits.drop whole
  else
    let e := point - 1
    let eDigits := Nat.toDigits 10 e.natAbs
    let lead :=
      match digits with
      | [] => []
      | [d] => [d]
      | d :: rest => d :: '.' :: rest
    lead ++ 'e' :: (if e < 0 then '-' else '+') ::
      (if eDigits.length < 2 then '0' :: eDigits else eDigits)

/-- The numeral of a finite magnitude. -/
def magnitudeText (m : Magnitude) : List Char :=
  if m.mant = 0 then ['0', '.', '0']
  else
    let d := m.shortest
    let all := Nat.toDigits 10 d.digits
    layout (dropZeros all) (all.length + d.power)

def text : Binary64 → Text
  | .nan => "nan"
  | .infinite negative => if negative then "-inf" else "inf"
  | .finite negative m =>
    let body : Text := (magnitudeText m).map CodePoint.ofChar
    if negative then CodePoint.ofChar '-' :: body else body

end Binary64

end RouteCatalog
