import RouteCatalog.Text.Blank
import RouteCatalog.Text.Digit
import RouteCatalog.Text.Split

/-!
# Numerals

Integers written in a base, and the reading of an integer from free text: blanks at both
ends, a sign, digits of any script, and single underscores between digits. Decimal numerals of more
than `maxDigits` digits are refused, because turning them into numbers takes time quadratic in their
length.
-/

namespace RouteCatalog

/-- The decimal numeral of a natural number. -/
def Text.ofNat (n : Nat) : Text := (Nat.toDigits 10 n).map CodePoint.ofChar

/-- The decimal numeral of a natural number with leading zeros, at least `width` digits. -/
def Text.padded (width n : Nat) : Text :=
  List.replicate (width - (Text.ofNat n).length) (CodePoint.ofChar '0') ++ Text.ofNat n

/-- The decimal numeral of an integer. -/
def Text.ofInt : Int → Text
  | .ofNat n => Text.ofNat n
  | .negSucc n => CodePoint.ofChar '-' :: Text.ofNat (n + 1)

/-- A lower-case hexadecimal digit. -/
def hexDigit (n : Nat) : CodePoint :=
  if n < 10 then CodePoint.ofNat (0x30 + n) else CodePoint.ofNat (0x57 + n)

/-- The number in lower-case hexadecimal, with exactly `width` digits. -/
def Text.ofHex : (width n : Nat) → Text
  | 0, _ => []
  | width + 1, n => Text.ofHex width (n / 16) ++ [hexDigit (n % 16)]

/-- The value of an ASCII hexadecimal digit. -/
def CodePoint.hexValue? (c : CodePoint) : Option Nat :=
  if c.isAsciiDigit then some (c.toNat - 0x30)
  else if c.between 0x41 0x46 then some (c.toNat - 0x37)
  else if c.between 0x61 0x66 then some (c.toNat - 0x57)
  else none

namespace Numeral

/-- The most digits a decimal numeral may have. -/
def maxDigits : Nat := 4300

/-- Why a text is not an integer. -/
inductive Fault
  | notNumeral (text : Text) (base : Nat)
  | tooManyDigits (digits : Nat)
  deriving DecidableEq

/-- The number that digits denote in a base, most significant digit first. -/
def value (base : Nat) (digits : List Nat) : Nat := digits.foldl (fun n d ↦ base * n + d) 0

/-- Digits with single underscores between them; the empty text has none. -/
def digits? (base : Nat) (digit? : CodePoint → Option Nat) : Text → Option (List Nat)
  | [] => none
  | [c] => (digit? c).bind fun d ↦ if d < base then some [d] else none
  | c :: u :: t =>
    (digit? c).bind fun d ↦
      if d < base then
        (if u = '_' then digits? base digit? t else digits? base digit? (u :: t)).map (d :: ·)
      else none

/-- A sign at the front, and what follows it. -/
def splitSign : Text → Bool × Text
  | [] => (false, [])
  | c :: t => if c = '-' then (true, t) else if c = '+' then (false, t) else (false, c :: t)

/-- Blanks of ASCII; a text without other scripts may have only these around its numeral. -/
def isAsciiBlank (c : CodePoint) : Bool := c.between 0x9 0xD || c = ' '

/-- Blanks around a numeral. In a text that has characters outside ASCII every blank counts, also
the separators `U+001C` to `U+001F`; in an ASCII text only the six blanks of ASCII do. -/
def isPadding (t : Text) (c : CodePoint) : Bool :=
  if t.all (·.toNat < 0x80) then isAsciiBlank c else c.isBlank

/-- The text without blanks around it. -/
def unpad (t : Text) : Text :=
  ((t.dropWhile (isPadding t)).reverse.dropWhile (isPadding t)).reverse

/-- The value of a digit: a decimal digit of any script, or a letter of ASCII up to `f`. -/
def digitValue? (c : CodePoint) : Option Nat := c.digit?.or c.hexValue?

/-- A numeral without the mark of its base: a zero and a letter, for bases that have one. -/
def withoutMark (base : Nat) : Text → Text
  | z :: m :: t =>
    let marks : Text :=
      if base = 2 then "bB" else if base = 8 then "oO" else if base = 16 then "xX" else []
    if z = '0' && marks.contains m then t else z :: m :: t
  | t => t

/-- The integer that a text denotes in a base: a sign may stand in front, digits may be of any
script. Only the digits of base ten are limited. -/
def readIn (base : Nat) (t : Text) : Except Fault Int :=
  let (negative, body) := splitSign (unpad t)
  match digits? base digitValue? (withoutMark base body) with
  | none => .error (.notNumeral t base)
  | some ds =>
    if base = 10 && ds.length > maxDigits then .error (.tooManyDigits ds.length)
    else .ok (if negative then -(value base ds : Int) else value base ds)

/-- The integer that a text denotes in base ten. -/
def read (t : Text) : Except Fault Int := readIn 10 t

end Numeral

end RouteCatalog
