import RouteCatalog.Yaml.Token.Plain

/-!
# Block scalars

A block scalar is a header and the lines after it that are indented enough. The indentation is that
of the first line that is not blank, unless the header gives it. Lines are kept as they are or
folded as in plain scalars; the header also says what becomes of the line ends at the end of the
scalar.
-/

namespace RouteCatalog.Yaml.Token.Block

/-- What becomes of the line ends at the end of a block scalar. -/
inductive Chomping
  /-- One of them is kept. -/
  | clip
  /-- None of them is kept. -/
  | strip
  /-- All of them are kept. -/
  | keep
  deriving DecidableEq

/-- What the header says. -/
structure Header where
  /-- What becomes of the line ends at the end. -/
  chomping : Chomping
  /-- The indentation, counted from that of the collection. -/
  indentation : Option Nat

/-- A sign that says what becomes of the line ends at the end. -/
def chomping? : Text → Option (Chomping × Text)
  | [] => none
  | c :: t => if c = '+' then some (.keep, t) else if c = '-' then some (.strip, t) else none

/-- A digit that gives the indentation. -/
def digit? : Text → Option (Nat × Text)
  | [] => none
  | c :: t => if c.isAsciiDigit then some (c.toNat - 0x30, t) else none

/-- The header at the front of a text that follows the indicator, and the text from the next line
on. The sign and the digit may stand in either order. -/
def header? (t : Text) : Option (Header × Text) := do
  let (header, t) : Header × Text :=
    match chomping? t, digit? t with
    | some (chomping, t), _ =>
      match digit? t with
      | some (n, t) => (⟨chomping, some n⟩, t)
      | none => (⟨chomping, none⟩, t)
    | none, some (n, t) =>
      match chomping? t with
      | some (chomping, t) => (⟨chomping, some n⟩, t)
      | none => (⟨.clip, some n⟩, t)
    | none, none => (⟨.clip, none⟩, t)
  guard (header.indentation ≠ some 0 && endsPart t)
  return (header, ← dropLine? t)

/-- Blank space before a line of the scalar. -/
structure Margin where
  ends : Text
  column : Nat
  rest : Text

/-- Blank lines, and the indentation of the line after them, of which at most `most` columns are
taken. -/
def margin (most : Nat) : (column : Nat) → Text → Margin
  | column, [] => ⟨[], column, []⟩
  | column, c :: t =>
    if c = ' ' && column < most then margin most (column + 1) t
    else if isBreak c then
      let m := margin most 0 t
      { m with ends := breakOf c :: m.ends }
    else ⟨[], column, c :: t⟩

/-- The blank lines and the indentation at the front of a text, and the widest indentation of these
lines, which is at least `widest`. -/
def firstMargin : (column widest : Nat) → Text → Margin × Nat
  | column, widest, [] => (⟨[], column, []⟩, max column widest)
  | column, widest, c :: t =>
    if c = ' ' then firstMargin (column + 1) widest t
    else if isBreak c then
      let (m, widest) := firstMargin 0 (max column widest) t
      ({ m with ends := breakOf c :: m.ends }, widest)
    else (⟨[], column, c :: t⟩, max column widest)

/-- The lines of a scalar, without the line ends at its end. -/
structure Body where
  /-- What they stand for. -/
  text : Text
  lastEnd : Text
  moreEnds : Text
  rest : Text

/-- What stands between a line and the next: the end of the line with the blank lines after it, or,
when both lines start at the indentation and the text is folded, what these fold to. -/
def joint (folded : Bool) (line lineEnd : Text) (next : Margin) : Text :=
  let flush (t : Text) : Bool := !(t.head?.any isSpace)
  if folded && lineEnd = ("\n" : Text) && flush line && flush next.rest then
    if next.ends.isEmpty then [' '] else []
  else lineEnd

/-- The lines at indentation `indent`, each for one unit of `fuel`. -/
def lines (folded : Bool) (indent : Nat) : (fuel : Nat) → Margin → Body
  | 0, m => ⟨[], [], m.ends, m.rest⟩
  | fuel + 1, m =>
    if m.column ≠ indent || m.rest.isEmpty then ⟨[], [], m.ends, m.rest⟩
    else
      let line := m.rest.takeWhile fun c ↦ !isBreak c
      let (lineEnd, rest) : Text × Text :=
        match m.rest.drop line.length with
        | [] => ([], [])
        | c :: t => ([breakOf c], t)
      let next := margin indent 0 rest
      if next.column ≠ indent || next.rest.isEmpty then
        ⟨m.ends ++ line, lineEnd, next.ends, next.rest⟩
      else
        let body := lines folded indent fuel next
        { body with text := m.ends ++ line ++ joint folded line lineEnd next ++ body.text }

/-- The block scalar at the front of a text that follows its indicator, and the text after it. The
lines of the scalar are indented by `least` columns, at least by one. -/
def read (folded : Bool) (least : Nat) (t : Text) : Except Fault (Text × Text) :=
  match header? t with
  | none => .error .malformed
  | some (header, t) =>
    let least := max least 1
    let (indent, first) : Nat × Margin :=
      match header.indentation with
      | some n => (least + n - 1, margin (least + n - 1) 0 t)
      | none =>
        let (first, widest) := firstMargin 0 0 t
        (max least widest, first)
    let body := lines folded indent (t.length + 1) first
    let ends : Text :=
      match header.chomping with
      | .clip => body.lastEnd
      | .strip => []
      | .keep => body.lastEnd ++ body.moreEnds
    .ok (body.text ++ ends, body.rest)

end RouteCatalog.Yaml.Token.Block
