import RouteCatalog.Json.Value
import RouteCatalog.Text.Case

/-!
# JSON tokens

A JSON text is cut into tokens, each with its offset. Cutting never fails: a string that is broken
off or escaped wrongly, an integer with too many digits and a character that starts no token become
tokens of their own, and it depends on where they stand whether their fault is the one to report.
Nothing after such a token can matter, so the cutting ends there.
-/

namespace RouteCatalog.Json

/-- What a JSON text lacks or has too much of at some offset. -/
inductive Cause
  | expectingValue
  | expectingKey
  | expectingColon
  | expectingComma
  /-- Something follows the value. -/
  | extraData
  | unterminatedText
  | controlCharacter
  /-- A backslash is followed by a character that it does not escape. -/
  | badEscape
  /-- A numeric escape has fewer than four digits. -/
  | badUnicodeEscape
  | byteOrderMark
  deriving DecidableEq

/-- A token of a JSON text. -/
inductive Token
  /-- The opening bracket of a container. -/
  | opening (c : Container)
  /-- The closing bracket of a container. -/
  | closing (c : Container)
  | comma
  | colon
  | text (value : Text)
  /-- A number, a truth value, null, or one of the words for special numbers. -/
  | scalar (value : Json)
  /-- An integer with too many digits. -/
  | longNumber (digits : Nat)
  /-- A string with a fault at an offset. -/
  | brokenText (cause : Cause) (position : Nat)
  /-- A character that starts no token. -/
  | stray

namespace Token

/-- The blanks of JSON. -/
def isBlank (c : CodePoint) : Bool := c = ' ' || c = '\t' || c = '\n' || c = '\r'

def shortEscape? (c : CodePoint) : Option CodePoint :=
  if c = '"' || c = '\\' || c = '/' then some c
  else if c = 'b' then some (.ofNat 0x8)
  else if c = 'f' then some (.ofNat 0xC)
  else if c = 'n' then some (.ofNat 0xA)
  else if c = 'r' then some (.ofNat 0xD)
  else if c = 't' then some (.ofNat 0x9)
  else none

/-- The code point of a surrogate pair. -/
def joinPair (high low : CodePoint) : CodePoint :=
  .ofNat (0x10000 + (high.toNat - 0xD800) * 0x400 + (low.toNat - 0xDC00))

/-- Adds an escaped code point to the reversed string `done`. A low surrogate joins with a high one
just before it, when that was escaped too. -/
def pushEscaped (afterHigh : Bool) (done : Text) (c : CodePoint) : Text :=
  match afterHigh && c.isLowSurrogate, done with
  | true, high :: done => joinPair high c :: done
  | _, done => c :: done

/-- Where the reading of a string stands. -/
inductive Within
  /-- Between characters; `afterHigh` after an escaped high surrogate. -/
  | plain (afterHigh : Bool)
  | escape (afterHigh : Bool)
  /-- Inside a numeric escape, with `left` digits to come. -/
  | hex (afterHigh : Bool) (left value : Nat)

/-- Reads the rest of a string whose opening quote is at `start`, from offset `position`, with the
characters so far in `done`, last one first. Gives the string and the offset after it. -/
def readText (start : Nat) :
    Within → (position : Nat) → (done : Text) → Text → Except (Cause × Nat) (Text × Nat)
  | .plain _, _, _, [] => .error (.unterminatedText, start)
  | .escape _, _, _, [] => .error (.unterminatedText, start)
  | .hex _ left _, position, _, [] => .error (.badUnicodeEscape, position - (5 - left))
  | .plain high, position, done, c :: t =>
    if c = '"' then .ok (done.reverse, position + 1)
    else if c = '\\' then readText start (.escape high) (position + 1) done t
    else if c.toNat < 0x20 then .error (.controlCharacter, position)
    else readText start (.plain false) (position + 1) (c :: done) t
  | .escape high, position, done, c :: t =>
    if c = 'u' then readText start (.hex high 4 0) (position + 1) done t
    else match shortEscape? c with
      | some e => readText start (.plain false) (position + 1) (e :: done) t
      | none => .error (.badEscape, position - 1)
  | .hex high left value, position, done, c :: t =>
    match c.hexValue? with
    | none => .error (.badUnicodeEscape, position - (5 - left))
    | some d =>
      let value := value * 16 + d
      if left ≤ 1 then
        let e := CodePoint.ofNat value
        if t.isEmpty then .error (.badUnicodeEscape, position - (5 - left))
        else readText start (.plain e.isHighSurrogate) (position + 1) (pushEscaped high done e) t
      else readText start (.hex high (left - 1) value) (position + 1) done t

/-- The digits at the front of a text, and the rest. -/
def spanDigits (t : Text) : Text × Text :=
  (t.takeWhile CodePoint.isAsciiDigit, t.dropWhile CodePoint.isAsciiDigit)

def digitsValue (digits : Text) : Nat := Numeral.value 10 (digits.map fun c ↦ c.toNat - 0x30)

/-- The integer part of a number: a zero alone, or digits that start with another digit. -/
def whole? : Text → Option (Text × Text)
  | [] => none
  | c :: t =>
    if c = '0' then some ([c], t)
    else if c.isAsciiDigit then some (c :: (spanDigits t).1, (spanDigits t).2)
    else none

/-- A fractional part: a point and at least one digit. Without one nothing is taken. -/
def fraction : Text → Text × Text
  | [] => ([], [])
  | c :: t => if c = '.' && !(spanDigits t).1.isEmpty then spanDigits t else ([], c :: t)

/-- An exponent: a letter, perhaps a sign, and at least one digit. -/
def exponent? : Text → Option (Int × Text)
  | [] => none
  | c :: t =>
    if c = 'e' || c = 'E' then
      let (negative, t) := Numeral.splitSign t
      let (digits, rest) := spanDigits t
      if digits.isEmpty then none
      else some (if negative then -(digitsValue digits : Int) else digitsValue digits, rest)
    else none

/-- A number without its sign at the front of a text. It is an integer unless it has a fraction or
an exponent. -/
def unsigned? (negative : Bool) (t : Text) : Option (Token × Text) :=
  (whole? t).map fun (whole, t) ↦
    let (frac, t) := fraction t
    match frac.isEmpty, exponent? t with
    | true, none =>
      if whole.length > Numeral.maxDigits then (.longNumber whole.length, t)
      else
        let n := digitsValue whole
        (.scalar (.int (if negative then -(n : Int) else n)), t)
    | _, none =>
      (.scalar (.float (.ofDecimal negative (digitsValue (whole ++ frac)) (-(frac.length : Int)))),
        t)
    | _, some (e, t) =>
      (.scalar (.float (.ofDecimal negative (digitsValue (whole ++ frac))
        (e - (frac.length : Int)))), t)

def number? (t : Text) : Option (Token × Text) :=
  if Text.startsWith "-" t then unsigned? true (t.drop 1) else unsigned? false t

/-- The words, with what they denote. -/
def words : List (Text × Json) :=
  [("null", .null), ("true", .bool true), ("false", .bool false), ("NaN", .float .nan),
    ("Infinity", .float (.infinite false)), ("-Infinity", .float (.infinite true))]

/-- The token at the front of a text that starts with a character at offset `position`, and the
number of characters it takes. -/
def atFront (position : Nat) (c : CodePoint) (t : Text) : Token × Nat :=
  if c = '[' then (.opening .array, 1)
  else if c = ']' then (.closing .array, 1)
  else if c = '{' then (.opening .object, 1)
  else if c = '}' then (.closing .object, 1)
  else if c = ',' then (.comma, 1)
  else if c = ':' then (.colon, 1)
  else if c = '"' then
    match readText position (.plain false) (position + 1) [] t with
    | .ok (value, stop) => (.text value, stop - position)
    | .error (cause, at') => (.brokenText cause at', 1)
  else
    match words.find? fun (w, _) ↦ Text.startsWith w (c :: t) with
    | some (w, v) => (.scalar v, w.length)
    | none =>
      match number? (c :: t) with
      | some (token, rest) => (token, t.length + 1 - rest.length)
      | none => (.stray, 1)

/-- Nothing after the token can matter. -/
def isLast : Token → Bool
  | .longNumber _ | .brokenText _ _ | .stray => true
  | _ => false

/-- The tokens of a text that starts at offset `position`, after skipping `skip` characters. -/
def allFrom : (skip position : Nat) → Text → List (Nat × Token)
  | _, _, [] => []
  | skip + 1, position, _ :: t => allFrom skip (position + 1) t
  | 0, position, c :: t =>
    if isBlank c then allFrom 0 (position + 1) t
    else
      let (token, length) := atFront position c t
      if token.isLast then [(position, token)]
      else (position, token) :: allFrom (length - 1) (position + 1) t

/-- The tokens of a text, with their offsets. -/
def all (t : Text) : List (Nat × Token) := allFrom 0 0 t

end Token

end RouteCatalog.Json
