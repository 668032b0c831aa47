import RouteCatalog.Text.Utf8
import RouteCatalog.Yaml.Token.Basic

/-!
# Names, tags and directives

The words that start with an indicator: names of nodes and references to them, tags, and the
directives before a document.
-/

namespace RouteCatalog.Yaml.Token.Mark

/-- The name of a node, after its indicator. -/
def name? (t : Text) : Option (Text × Text) :=
  let name := t.takeWhile isNameChar
  let rest := t.drop name.length
  if name.isEmpty then none
  else if endsWord rest || rest.head?.any ("?:,]\x7d%@\x60" : Text).contains then some (name, rest)
  else none

/-- The characters, beside letters and digits, of the name of a tag. -/
def tagSigns : Text := "-;/?:@&=+$,_.!~*'()[]"

/-- A character of the name of a tag that stands for itself. -/
def isTagChar (c : CodePoint) : Bool :=
  c.isAsciiLetter || c.isAsciiDigit || tagSigns.contains c

/-- The bytes of a run of escapes, each a percent sign and two hexadecimal digits, and the rest;
nothing when an escape lacks digits. -/
def escapedBytes? : Text → Option (Bytes × Text)
  | [] => some ([], [])
  | c :: t =>
    if c = '%' then
      match t with
      | a :: b :: t => do
        let (rest, after) ← escapedBytes? t
        return (.ofNat ((← a.hexValue?) * 16 + (← b.hexValue?)) :: rest, after)
      | _ => none
    else some ([], c :: t)

/-- The name of a tag at the front of a text, in parts that each take one unit of `fuel`. -/
def tagNameFrom? : (fuel : Nat) → Text → Option (Text × Text)
  | 0, t => some ([], t)
  | fuel + 1, t =>
    let plain := t.takeWhile isTagChar
    let rest := t.drop plain.length
    if Text.startsWith "%" rest then do
      let (bytes, rest) ← escapedBytes? rest
      let decoded ← (Utf8.decode bytes).toOption
      let (more, rest) ← tagNameFrom? fuel rest
      return (plain ++ decoded ++ more, rest)
    else some (plain, rest)

/-- The name of a tag at the front of a text; it is not empty. -/
def tagName? (t : Text) : Option (Text × Text) := do
  let (name, rest) ← tagNameFrom? (t.length + 1) t
  guard (rest.length < t.length)
  return (name, rest)

/-- A handle at the front of a text: an exclamation mark, or a word between two. -/
def handle? (t : Text) : Option (Text × Text) := do
  let t ← Text.dropLiteral? "!" t
  if Text.startsWith " " t then return (['!'], t)
  let word := t.takeWhile isNameChar
  let rest ← Text.dropLiteral? "!" (t.drop word.length)
  return ("!" ++ word ++ "!", rest)

/-- A tag, after its exclamation mark. -/
def tag? (t : Text) : Option (Token × Text) := do
  let (found, rest) : Token × Text ←
    match Text.dropLiteral? "<" t with
    | some t =>
      let (name, rest) ← tagName? t
      pure (.tag none name, ← Text.dropLiteral? ">" rest)
    | none =>
      if endsWord t then pure (.tag none ['!'], t)
      else
        let word := t.takeWhile fun (c : CodePoint) ↦ !(c = ' ' || isBreak c)
        let (short, t) ←
          if word.contains (CodePoint.ofChar '!') then handle? ("!" ++ t) else some ("!", t)
        let (name, rest) ← tagName? t
        pure (.tag (some short) name, rest)
  guard (endsPart rest)
  return (found, rest)

def versionNumber (t : Text) : Except Fault (Nat × Text) :=
  let digits := t.takeWhile CodePoint.isAsciiDigit
  if digits.isEmpty then .error .malformed
  else match Numeral.read digits with
    | .ok n => .ok (n.toNat, t.drop digits.length)
    | .error fault => .error (.integer fault)

/-- An optional value is there, or the document is malformed. -/
def required {α : Type} (found : Option α) : Except Fault α :=
  match found with
  | some a => .ok a
  | none => .error .malformed

/-- A directive, after its percent sign, and the text from the next line on. -/
def directive (t : Text) : Except Fault (Token × Text) := do
  let name := t.takeWhile isNameChar
  let rest := t.drop name.length
  let blanks (t : Text) : Text := t.dropWhile (· = CodePoint.ofChar ' ')
  if name.isEmpty || !endsPart rest then .error .malformed
  else if name = ("YAML" : Text) then
    let (major, rest) ← versionNumber (blanks rest)
    let rest ← required (Text.dropLiteral? "." rest)
    let (_, rest) ← versionNumber rest
    if endsPart rest then return (.version major, ← required (dropLine? rest))
    else .error .malformed
  else if name = ("TAG" : Text) then
    let (short, rest) ← required (handle? (blanks rest))
    let rest ← required (Text.dropLiteral? " " rest)
    let (start, rest) ← required (tagName? (blanks rest))
    if endsPart rest then return (.handle short start, ← required (dropLine? rest))
    else .error .malformed
  else return (.directive, ← required (dropLine? (rest.dropWhile fun c ↦ !isBreak c)))

end RouteCatalog.Yaml.Token.Mark
