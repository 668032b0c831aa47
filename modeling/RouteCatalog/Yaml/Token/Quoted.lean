import RouteCatalog.Text.Numeral
import RouteCatalog.Yaml.Token.Plain

/-!
# Quoted scalars

Between apostrophes only the apostrophe itself is written in a special way, twice. Between double
quotes a backslash starts an escape. In both, the blanks around a line end are dropped, and line
ends are folded as in plain scalars.

Reading goes through the text once, one character at a time; `Mode` is what has to be known of the
characters before.
-/

namespace RouteCatalog.Yaml.Token.Quoted

/-- What the next character is part of. -/
inductive Mode
  | value
  /-- Blanks, last one first, which count unless a line ends after them. -/
  | blanks (before : Text)
  /-- Line ends; `first` is one that may still stand for a blank, and `start` holds at the start of
  a line. -/
  | lines (first : Option CodePoint) (start : Bool)
  /-- An escape, after its backslash. -/
  | escape
  /-- The number of an escape, with `left` digits to come after the next one. -/
  | number (left found : Nat)
  /-- Perhaps a second apostrophe. -/
  | apostrophe
  deriving DecidableEq

/-- What one character does. -/
inductive Effect
  /-- It adds characters to the value, and reading goes on. -/
  | more (added : Text) (next : Mode)
  /-- It ends the scalar. -/
  | done
  /-- It stands after the end of the scalar. -/
  | past

def shortEscapes : List (CodePoint × CodePoint) :=
  [('0', .ofNat 0x0), ('a', .ofNat 0x7), ('b', .ofNat 0x8), ('t', .ofNat 0x9), ('\t', .ofNat 0x9),
    ('n', .ofNat 0xA), ('v', .ofNat 0xB), ('f', .ofNat 0xC), ('r', .ofNat 0xD), ('e', .ofNat 0x1B),
    (' ', .ofNat 0x20), ('"', '"'), ('\\', '\\'), ('/', '/'), ('N', .ofNat 0x85),
    ('_', .ofNat 0xA0), ('L', .ofNat 0x2028), ('P', .ofNat 0x2029)]

def numberWidth? (c : CodePoint) : Option Nat :=
  if c = 'x' then some 2 else if c = 'u' then some 4 else if c = 'U' then some 8 else none

def valueStep (double : Bool) (c : CodePoint) : Effect :=
  if isSpace c then .more [] (.blanks [c])
  else if isBreak c then .more [] (.lines (some (breakOf c)) true)
  else if double && c = '"' then .done
  else if double && c = '\\' then .more [] .escape
  else if !double && c = '\'' then .more [] .apostrophe
  else .more [c] .value

/-- One character, with the text after it. What blanks and line ends add is settled by the first
character after them. -/
def step (double : Bool) (c : CodePoint) (t : Text) : Mode → Except Fault (Text × Effect)
  | .value => .ok ([], valueStep double c)
  | .blanks before =>
    if isSpace c then .ok ([], .more [] (.blanks (c :: before)))
    else if isBreak c then .ok ([], .more [] (.lines (some (breakOf c)) true))
    else .ok (before.reverse, valueStep double c)
  | .lines first start =>
    if start && atDocumentMark (c :: t) then .error .malformed
    else if isSpace c then .ok ([], .more [] (.lines first false))
    else if isBreak c then
      let kept := first.toList.filter (· ≠ CodePoint.ofChar '\n')
      .ok ([], .more (kept ++ [breakOf c]) (.lines none true))
    else .ok (first.elim [] (Plain.fold · []), valueStep double c)
  | .escape =>
    if isBreak c then .ok ([], .more [] (.lines none true))
    else match shortEscapes.lookup c, numberWidth? c with
      | some e, _ => .ok ([], .more [e] .value)
      | none, some width => .ok ([], .more [] (.number (width - 1) 0))
      | none, none => .error .malformed
  | .number left found =>
    match c.hexValue? with
    | none => .error .malformed
    | some d =>
      let n := found * 16 + d
      if 0 < left then .ok ([], .more [] (.number (left - 1) n))
      else if n < 0x110000 then .ok ([], .more [.ofNat n] .value)
      else .error (.noCharacter n)
  | .apostrophe => .ok ([], if c = '\'' then .more [c] .value else .past)

/-- The rest of a quoted scalar after its opening quote: its value, and the text that follows it. -/
def readFrom (double : Bool) : Mode → Text → Except Fault (Text × Text)
  | .apostrophe, [] => .ok ([], [])
  | _, [] => .error .malformed
  | mode, c :: t =>
    match step double c t mode with
    | .error fault => .error fault
    | .ok (_, .past) => .ok ([], c :: t)
    | .ok (before, .done) => .ok (before, t)
    | .ok (before, .more added next) =>
      (readFrom double next t).map fun (text, rest) ↦ (before ++ added ++ text, rest)

def read (double : Bool) (t : Text) : Except Fault (Text × Text) := readFrom double .value t

end RouteCatalog.Yaml.Token.Quoted
