import RouteCatalog.Text.Numeral

/-!
# Binary floating point

The numbers of the 64-bit binary format, as exact values: a magnitude is `mant * 2 ^ (exp - 1074)`
with at most 53 bits of significand, and every nonzero magnitude has exactly one such form, so
equality of values is equality of representations. Zero and infinity carry a sign.

Everything is computed in `Nat`, powers with its own `Nat.pow`. Rounding takes a fraction to the
nearest magnitude and a tie to the one with an even significand, so decimal numerals are read
correctly rounded; sums and products round their exact values once.
-/

namespace RouteCatalog

/-- A power, kept apart from `Nat.pow` so that the large ones of the format are never evaluated when
two terms are compared. -/
def power (base exponent : Nat) : Nat := Nat.pow base exponent

theorem power_pos {base : Nat} (h : 0 < base) (exponent : Nat) : 0 < power base exponent :=
  Nat.pow_pos h

/-- A nonnegative finite magnitude, `mant * 2 ^ (exp - 1074)` in its canonical form: the significand
has 53 bits unless the exponent is the least one. -/
structure Magnitude where
  mant : Nat
  /-- The exponent, counted from the least one. -/
  exp : Nat
  canonical : mant < Nat.pow 2 53 ∧ exp ≤ 2045 ∧ (Nat.pow 2 52 ≤ mant ∨ exp = 0)
  deriving DecidableEq

namespace Magnitude

/-- The units in one; every magnitude is a whole number of units. -/
def one : Nat := power 2 1074

theorem one_pos : 0 < one := power_pos (by decide) 1074

def zero : Magnitude := ⟨0, 0, by decide⟩

/-- The magnitude with the given parts, when they are in canonical form. -/
def ofParts? (mant exp : Nat) : Option Magnitude :=
  if h : mant < Nat.pow 2 53 ∧ exp ≤ 2045 ∧ (Nat.pow 2 52 ≤ mant ∨ exp = 0) then
    some ⟨mant, exp, h⟩
  else none

theorem ofParts?_mant_exp (m : Magnitude) : ofParts? m.mant m.exp = some m := by
  rw [ofParts?, dif_pos m.canonical]

/-- A fraction rounded to the nearest integer; a half goes to the even one. -/
def roundDiv (num den : Nat) : Nat :=
  let q := num / den
  let r := num % den
  if 2 * r < den then q else if den < 2 * r then q + 1 else if q % 2 = 0 then q else q + 1

/-- The exponent at which a fraction has a significand of 53 bits, or the least exponent. -/
def exponentOf (num den : Nat) : Nat :=
  let units := num * one / den
  if units < Nat.pow 2 53 then 0 else units.log2 - 52

/-- The magnitude nearest to a fraction; nothing when it is too large. -/
def ofRatio? (num den : Nat) : Option Magnitude :=
  let exp := exponentOf num den
  let mant := roundDiv (num * one) (den * Nat.pow 2 exp)
  if mant = Nat.pow 2 53 then ofParts? (Nat.pow 2 52) (exp + 1) else ofParts? mant exp

def units (m : Magnitude) : Nat := m.mant * Nat.pow 2 m.exp

/-- The magnitude nearest to `digits * 10 ^ power`; nothing when it is too large. Numerals far
outside the range of the format are decided by their number of digits alone. -/
def ofDecimal? (digits : Nat) (power : Int) : Option Magnitude :=
  if digits = 0 then some zero
  else
    let size : Int := (Nat.toDigits 10 digits).length + power
    if size > 400 then none
    else if size < -400 then some zero
    else match power with
      | .ofNat p => ofRatio? (digits * Nat.pow 10 p) 1
      | .negSucc p => ofRatio? digits (Nat.pow 10 (p + 1))

/-- The integer part. -/
def floor (m : Magnitude) : Nat := m.units / one

end Magnitude

/-- A number of the 64-bit binary format. -/
inductive Binary64
  | nan
  | infinite (negative : Bool)
  | finite (negative : Bool) (magnitude : Magnitude)
  deriving DecidableEq

namespace Binary64

instance : Inhabited Binary64 := ⟨.nan⟩

/-- A rounded magnitude with its sign; what is too large becomes infinite. -/
def ofMagnitude? (negative : Bool) : Option Magnitude → Binary64
  | some m => .finite negative m
  | none => .infinite negative

/-- The number nearest to `± digits * 10 ^ power`. -/
def ofDecimal (negative : Bool) (digits : Nat) (power : Int) : Binary64 :=
  ofMagnitude? negative (Magnitude.ofDecimal? digits power)

/-- The number nearest to an integer. -/
def ofInt (i : Int) : Binary64 := ofMagnitude? (i < 0) (Magnitude.ofRatio? i.natAbs 1)

def units (negative : Bool) (m : Magnitude) : Int := if negative then -(m.units : Int) else m.units

/-- The sum of two numbers, rounded once. A sum of zero is negative only if both terms are. -/
def add : Binary64 → Binary64 → Binary64
  | .nan, _ => .nan
  | _, .nan => .nan
  | .infinite a, .infinite b => if a = b then .infinite a else .nan
  | .infinite a, .finite _ _ => .infinite a
  | .finite _ _, .infinite b => .infinite b
  | .finite a m, .finite b n =>
    let sum := units a m + units b n
    if sum = 0 then .finite (a && b) .zero
    else ofMagnitude? (sum < 0) (Magnitude.ofRatio? sum.natAbs Magnitude.one)

/-- The product of two numbers, rounded once. -/
def mul : Binary64 → Binary64 → Binary64
  | .nan, _ => .nan
  | _, .nan => .nan
  | .infinite a, .infinite b => .infinite (a != b)
  | .infinite a, .finite b n => if n.mant = 0 then .nan else .infinite (a != b)
  | .finite a m, .infinite b => if m.mant = 0 then .nan else .infinite (a != b)
  | .finite a m, .finite b n =>
    ofMagnitude? (a != b) (Magnitude.ofRatio? (m.units * n.units) (Magnitude.one * Magnitude.one))

/-- The number with the opposite sign. -/
def neg : Binary64 → Binary64
  | .nan => .nan
  | .infinite a => .infinite !a
  | .finite a m => .finite (!a) m

/-- The number is zero, of either sign. -/
def isZero : Binary64 → Bool
  | .finite _ m => m.mant = 0
  | _ => false

end Binary64

end RouteCatalog
