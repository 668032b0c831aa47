import RouteCatalog.Text.Case
import RouteCatalog.Text.Numeral
import RouteCatalog.Text.Pattern

/-!
# Markup

What is printed is markup: text with tags in square brackets that choose styles. The console that
shows it is not part of the program, and what it makes of markup is left open (`Renderer`).

`render` is a renderer for a console without styles. A tag is a lower-case word, or something that
starts with `#`, `/` or `@`, between square brackets. Tags vanish, but they have to fit together: a
closing tag needs an open one of its style. Backslashes before a tag are halved, and an odd one
takes away its meaning; elsewhere a backslash before an opening bracket is dropped.

It knows the attributes of styles by both their names. Other styles are the same if they are written
alike: it knows no colours, so it takes two ways to write one colour for two styles, and it looks at
neither the numbers of a colour nor the arguments of an action.
-/

namespace RouteCatalog.Markup

/-- What is raised where markup cannot be shown. -/
structure Fault where
  kind : Text
  message : Text
  deriving DecidableEq

/-- The text that is shown for markup. -/
abbrev Renderer : Type := Text → Except Fault Text

/-! ## Tags -/

/-- A tag and the backslashes before it. -/
structure Tag where
  backslashes : Nat
  /-- What stands between the brackets. -/
  body : Text
  deriving DecidableEq

def startsBody (c : CodePoint) : Bool := c.between 0x61 0x7A || c = '#' || c = '/' || c = '@'

/-- The body of a tag and what follows its closing bracket: at least one character, no opening
bracket. -/
def body? : Text → Option (Text × Text)
  | [] => none
  | c :: t =>
    if startsBody c then
      let rest := t.takeWhile fun (c : CodePoint) ↦ c ≠ '[' && c ≠ ']'
      (Text.dropLiteral? "]" (t.drop rest.length)).map fun after ↦ (c :: rest, after)
    else none

def tag : Pattern Tag := fun _ t ↦ do
  let backslashes := t.takeWhile (· = CodePoint.ofChar '\\')
  let t ← Text.dropLiteral? "[" (t.drop backslashes.length)
  let (body, rest) ← body? t
  return (⟨backslashes.length, body⟩, rest)

/-- A fault in the markup itself. -/
def Fault.ofMarkup (message : Text) : Fault := ⟨"MarkupError", message⟩

/-- A closing tag, with what stands between its brackets, has no open tag of its style. -/
def Fault.notOpen (body : Text) (position : Nat) : Fault :=
  .ofMarkup ("closing tag '[" ++ body ++ "]' at position " ++ Text.ofNat position ++
    " doesn't match any open tag")

/-- A closing tag for any style has no open tag. -/
def Fault.nothingOpen (position : Nat) : Fault :=
  .ofMarkup ("closing tag '[/]' at position " ++ Text.ofNat position ++ " has nothing to close")

/-! ## Styles -/

/-- The attributes of styles with their short names, in the order in which a style lists them. -/
def attributes : List (Text × Text) :=
  [("bold", "b"), ("dim", "d"), ("italic", "i"), ("underline", "u"), ("blink", "blink"),
    ("blink2", "blink2"), ("reverse", "r"), ("conceal", "c"), ("strike", "s"),
    ("underline2", "uu"), ("frame", "frame"), ("encircle", "encircle"), ("overline", "o")]

def attribute? (word : Text) : Option Text :=
  (attributes.find? fun (long, short) ↦ word = long || word = short).map Prod.fst

def wordsOf (t : Text) : List Text :=
  t.foldr (fun c words ↦
    if c.isBlank then [] :: words
    else match words with
      | [] => [[c]]
      | word :: rest => (c :: word) :: rest) [[]] |>.filter (!·.isEmpty)

/-- A style in the form in which styles are compared: attributes by their long names and in order,
anything else as it is written but in lower case. -/
def normalStyle (t : Text) : Text :=
  let words := (wordsOf t).map Text.lower
  match words.mapM attribute? with
  | some names =>
    if names.isEmpty then "none"
    else Text.join " " ((attributes.map Prod.fst).filter names.contains)
  | none => t.trim.lower

/-! ## Printing -/

/-- Text outside tags. -/
def plain : Text → Text
  | a :: b :: t => if a = '\\' && b = '[' then b :: plain t else a :: plain (b :: t)
  | t => t

/-- What is printed so far. -/
structure State where
  done : Text
  /-- The styles of the open tags, innermost first. -/
  opened : List Text
  /-- The offset after the last tag. -/
  position : Nat

/-- A tag that stands at a position and is no longer escaped. -/
def State.apply (s : State) (body : Text) (position : Nat) : Except Fault State :=
  let name := body.takeWhile (· ≠ CodePoint.ofChar '=')
  match Text.dropLiteral? "/" name with
  | none => .ok { s with opened := normalStyle name :: s.opened }
  | some style =>
    if style.isBlank then
      match s.opened with
      | [] => .error (.nothingOpen position)
      | _ :: opened => .ok { s with opened }
    else if s.opened.contains (normalStyle style) then
      .ok { s with opened := s.opened.erase (normalStyle style) }
    else .error (.notOpen body position)

/-- A tag of the source, after the text before it. -/
def State.step (source : Text) (s : State) (o : Occurrence Tag) : Except Fault State :=
  let before := plain ((source.take o.start).drop s.position)
  let pairs := o.value.backslashes / 2
  let s := { s with
    done := s.done ++ before ++ List.replicate pairs (CodePoint.ofChar '\\'), position := o.stop }
  if o.value.backslashes % 2 = 1 then
    .ok { s with done := s.done ++ "[" ++ o.value.body ++ "]" }
  else s.apply o.value.body (o.start + 2 * pairs)

/-- The control characters that are not printed: bell, backspace, vertical tab, form feed and
carriage return. -/
def isSilent (c : CodePoint) : Bool :=
  c.toNat = 0x7 || c.toNat = 0x8 || c.toNat = 0xB || c.toNat = 0xC || c.toNat = 0xD

/-- The renderer for a console without styles. -/
def render : Renderer := fun source ↦ do
  let s ← (tag.occurrences source).foldlM (State.step source) ⟨[], [], 0⟩
  return (s.done ++ plain (source.drop s.position)).filter fun c ↦ !isSilent c

end RouteCatalog.Markup
