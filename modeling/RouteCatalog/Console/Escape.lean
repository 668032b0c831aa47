import RouteCatalog.Text.Numeral
import RouteCatalog.Text.Pattern

/-!
# Escapes on a console

Escape sequences change how a console shows what follows. Output here has no styles, so they are
taken out. Surrogates have no encoding; a console shows their escapes instead.
-/

namespace RouteCatalog.Console

/-- A character between the start of an escape sequence and its last letter. -/
def isArgument (c : CodePoint) : Bool := c.isAsciiDigit || c = ';' || c = '?'

def dropSequence? (t : Text) : Option Text :=
  match t with
  | escape :: t =>
    if escape.toNat = 0x1B then
      match (Text.dropLiteral? "[" t).map fun t ↦ t.dropWhile isArgument with
      | some (letter :: rest) => if letter.isAsciiLetter then some rest else none
      | _ => none
    else none
  | [] => none

def sequence : Pattern Unit := fun _ t ↦ (dropSequence? t).map fun rest ↦ ((), rest)

def withoutSequences (t : Text) : Text :=
  let (stop, done) := sequence.occurrences t |>.foldl (fun ((stop, done) : Nat × Text) o ↦
    (o.stop, done ++ (t.take o.start).drop stop)) (0, [])
  done ++ t.drop stop

def withSurrogatesShown (t : Text) : Text :=
  t.flatMap fun c ↦
    if c.isHighSurrogate || c.isLowSurrogate then "\\u" ++ Text.ofHex 4 c.toNat else [c]

end RouteCatalog.Console
