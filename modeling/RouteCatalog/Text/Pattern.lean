import RouteCatalog.Text.Blank

/-!
# Patterns and their occurrences

A pattern looks at a text and at the character before it, and either recognises a value at the
front, together with what follows it, or declines. Its occurrences in a text are found from left to
right, and the search goes on after the end of each, so occurrences never overlap.

The search walks the text once and skips the characters of an occurrence by counting them down. It
is therefore structural on the text and needs no bound.
-/

namespace RouteCatalog

/-- Recognises a value at the front of a text, given the character before the text; the result also
holds the text that follows the recognised part. Patterns recognise at least one character. -/
abbrev Pattern (α : Type) := Option CodePoint → Text → Option (α × Text)

/-- A place where a pattern was recognised. -/
structure Occurrence (α : Type) where
  /-- The offset of the first character. -/
  start : Nat
  length : Nat
  value : α

namespace Occurrence

variable {α : Type}

/-- The offset just after the last character. -/
def stop (o : Occurrence α) : Nat := o.start + o.length

end Occurrence

namespace Pattern

variable {α : Type}

/-- The occurrences in `text`, which starts at offset `start`, after skipping `skip` characters. -/
def occurrencesFrom (p : Pattern α) :
    (skip start : Nat) → Option CodePoint → (text : Text) → List (Occurrence α)
  | _, _, _, [] => []
  | skip + 1, start, _, c :: t => p.occurrencesFrom skip (start + 1) (some c) t
  | 0, start, before, c :: t =>
    match p before (c :: t) with
    | some (value, rest) =>
      let length := t.length + 1 - rest.length
      ⟨start, length, value⟩ :: p.occurrencesFrom (length - 1) (start + 1) (some c) t
    | none => p.occurrencesFrom 0 (start + 1) (some c) t

/-- The occurrences of a pattern in a text, from left to right, without overlaps. -/
def occurrences (p : Pattern α) (t : Text) : List (Occurrence α) := p.occurrencesFrom 0 0 none t

/-- The first value that a pattern recognises in a text, with the text that follows it. -/
def first? (p : Pattern α) : Option CodePoint → Text → Option (α × Text)
  | _, [] => none
  | before, c :: t =>
    match p before (c :: t) with
    | some found => some found
    | none => p.first? (some c) t

def occursIn (p : Pattern α) (t : Text) : Bool := (p.first? none t).isSome

end Pattern

namespace Text

/-- What follows one or more blanks. -/
def dropBlanks? : Text → Option Text
  | [] => none
  | c :: t => if c.isBlank then some (Text.trimLeft t) else none

end Text

end RouteCatalog
