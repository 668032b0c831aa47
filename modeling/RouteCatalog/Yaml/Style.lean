import RouteCatalog.Text.Numeral
import RouteCatalog.Yaml.Tag
import RouteCatalog.Yaml.Token.Basic

/-!
# Written scalars

A scalar is written plain where it can be told from everything else, between apostrophes where it is
printable, and between double quotes otherwise. Output is ASCII. Long lines are folded at single
blanks; inside double quotes they may be broken between any two characters, because an escaped line
end adds nothing to the value.

Keys are written on one line. A scalar that would need more, or that is long, is no simple key.
-/

namespace RouteCatalog.Yaml

/-- Columns after which a line is folded. -/
def width : Nat := 80

/-- The blanks at the start of a line. -/
def margin (columns : Nat) : Text := List.replicate columns ' '

namespace Style

/-- How a scalar is written. -/
inductive Choice
  | plain
  | single
  | double
  deriving DecidableEq

/-- A character that is written as it is. -/
def isSimple (c : CodePoint) : Bool := c.between 0x20 0x7E

/-- Some neighbours satisfy a relation. -/
def someNeighbours (r : CodePoint → CodePoint → Bool) (t : Text) : Bool :=
  (t.zip t.tail).any fun (a, b) ↦ r a b

/-- The text holds the end of a line. -/
def isMultiline (t : Text) : Bool := t.any Token.isBreak

/-- A blank stands next to the end of a line. -/
def hasBlankAtBreak (t : Text) : Bool :=
  someNeighbours (fun a b ↦
    (a = ' ' && Token.isBreak b) || (Token.isBreak a && b = ' ')) t

/-- The text may stand between apostrophes. -/
def allowsSingle (t : Text) : Bool :=
  t.all (fun (c : CodePoint) ↦ isSimple c || c = '\n') && !hasBlankAtBreak t

/-- The characters that may not start a plain scalar. -/
def indicators : Text := "#,[]\x7b\x7d&*!|>'\"%@\x60"

/-- What follows the first character ends a word. -/
def isAlone (t : Text) : Bool := Token.endsWord t

/-- The text starts like something other than a scalar. -/
def startsOdd : Text → Bool
  | [] => false
  | c :: t =>
    Text.startsWith "---" (c :: t) || Text.startsWith "..." (c :: t) || indicators.contains c ||
      ((c = '?' || c = ':' || c = '-') && isAlone t)

/-- A colon before a gap, or a comment. -/
def hasSeparator : Text → Bool
  | [] => false
  | c :: t =>
    (c = ':' && isAlone t) ||
      (Token.isSpace c && Text.startsWith "#" t) || hasSeparator t

/-- The text may be written as it is. -/
def allowsPlain (t : Text) : Bool :=
  t.all isSimple && t.head? ≠ some ' ' && t.getLast? ≠ some ' ' && !startsOdd t && !hasSeparator t

/-- How a text is written; `plain` says that its tag would be found. A key has no line ends. -/
def choose (plain isKey : Bool) (t : Text) : Choice :=
  if plain && allowsPlain t && !(isKey && t.isEmpty) then .plain
  else if allowsSingle t && !(isKey && isMultiline t) then .single
  else .double

/-! ## Folding -/

def newLine (indent : Nat) : Text := '\n' :: margin indent

/-- A blank may become the end of a line: the line is long enough, and no blank stands next to it.
-/
def folds (column : Nat) (before : Option CodePoint) (c : CodePoint) (t : Text) : Bool :=
  c = ' ' && decide (width < column) && before.isSome && before ≠ some ' ' &&
    t.head?.any (· ≠ CodePoint.ofChar ' ')

/-- A plain scalar from a column on, after the character `before`. -/
def plain (indent : Nat) : (column : Nat) → (before : Option CodePoint) → Text → Text
  | _, _, [] => []
  | column, before, c :: t =>
    if folds column before c t then newLine indent ++ plain indent indent (some c) t
    else c :: plain indent (column + 1) (some c) t

/-- A scalar between apostrophes from a column on, after the character `before`. A line end is
written as an empty line. -/
def single (indent : Nat) : (column : Nat) → (before : Option CodePoint) → Text → Text
  | _, _, [] => []
  | column, before, c :: t =>
    if c = '\n' then
      let first : Text := if before = some '\n' then [] else "\n"
      if t.head? = some '\n' then first ++ "\n" ++ single indent 0 (some c) t
      else first ++ newLine indent ++ single indent indent (some c) t
    else if folds column before c t then newLine indent ++ single indent indent (some c) t
    else if c = '\'' then '\'' :: '\'' :: single indent (column + 2) (some c) t
    else c :: single indent (column + 1) (some c) t

def shortEscapes : List (CodePoint × CodePoint) :=
  [(.ofNat 0x0, '0'), (.ofNat 0x7, 'a'), (.ofNat 0x8, 'b'), (.ofNat 0x9, 't'), (.ofNat 0xA, 'n'),
    (.ofNat 0xB, 'v'), (.ofNat 0xC, 'f'), (.ofNat 0xD, 'r'), (.ofNat 0x1B, 'e'), ('"', '"'),
    ('\\', '\\'), (.ofNat 0x85, 'N'), (.ofNat 0xA0, '_'), (.ofNat 0x2028, 'L'),
    (.ofNat 0x2029, 'P')]

/-- An upper-case hexadecimal numeral with exactly `width` digits. -/
def upperHex (width n : Nat) : Text :=
  (Text.ofHex width n).map fun c ↦ if c.between 0x61 0x66 then .ofNat (c.toNat - 0x20) else c

/-- The escape of a character that needs one between double quotes. -/
def escape? (c : CodePoint) : Option Text :=
  match shortEscapes.lookup c with
  | some e => some ['\\', e]
  | none =>
    if isSimple c then none
    else if c.toNat < 0x100 then some ("\\x" ++ upperHex 2 c.toNat)
    else if c.toNat < 0x10000 then some ("\\u" ++ upperHex 4 c.toNat)
    else some ("\\U" ++ upperHex 8 c.toNat)

/-- An escaped line end before a text, and the column after it. A blank that follows it needs a
backslash too. -/
def brokenLine (indent : Nat) (t : Text) : Text × Nat :=
  if Text.startsWith " " t then ("\\" ++ newLine indent ++ "\\", indent + 1)
  else ("\\" ++ newLine indent, indent)

/-- A scalar between double quotes from a column on. `fresh` holds after an escape or the opening
quote, `first` after the opening quote. With `mayBreak` long lines are broken, at a blank or at an
escape. -/
def double (mayBreak : Bool) (indent : Nat) :
    (column : Nat) → (first fresh : Bool) → Text → Text
  | _, _, _, [] => []
  | column, first, fresh, c :: t =>
    let inside := mayBreak && !first && !t.isEmpty
    match escape? c with
    | some e =>
      let column := column + e.length
      if inside && decide (width < column - 1) then
        let (line, column) := brokenLine indent t
        e ++ line ++ double mayBreak indent column false true t
      else e ++ double mayBreak indent column false true t
    | none =>
      if inside && (c = ' ' || fresh) && decide (width < column) then
        let (line, column) := brokenLine indent (c :: t)
        line ++ c :: double mayBreak indent (column + 1) false false t
      else c :: double mayBreak indent (column + 1) false false t

/-- A scalar written at a column. -/
def value (plain : Bool) (indent column : Nat) (t : Text) : Text :=
  match choose plain false t with
  | .plain => Style.plain indent column none t
  | .single => "'" ++ single indent (column + 1) none t ++ "'"
  | .double => "\"" ++ double true indent (column + 1) true true t ++ "\""

/-- A scalar written as a key: on one line. -/
def key (plain : Bool) (t : Text) : Text :=
  match choose plain true t with
  | .plain => t
  | .single => "'" ++ (t.flatMap fun (c : CodePoint) ↦ if c = '\'' then [c, c] else [c]) ++ "'"
  | .double => "\"" ++ double false 0 0 true true t ++ "\""

end Style

end RouteCatalog.Yaml
