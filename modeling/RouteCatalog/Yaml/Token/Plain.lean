import RouteCatalog.Yaml.Token.Basic

/-!
# Plain scalars

A plain scalar has neither quotes nor indicators around it. It is made of chunks with gaps between
them. A gap inside a line stands for itself; a gap with line ends stands for one blank, or for the
line ends after the first. The scalar ends at a colon before a gap, at a comment, at a line that is
not indented enough, and between brackets also at a comma or bracket.
-/

namespace RouteCatalog.Yaml.Token.Plain

/-- The characters that end a chunk between brackets. -/
def flowEnds : Text := ",?[]\x7b\x7d"

/-- The chunk ends before a character with the given text after it. -/
def endsAt (flow : Bool) (c : CodePoint) (t : Text) : Bool :=
  isSpace c || isBreak c ||
    (c = ':' && (endsWord t || (flow && t.head?.any (",[]\x7b\x7d" : Text).contains))) ||
    (flow && flowEnds.contains c)

/-- The chunk at the front of a text, and the rest. -/
def chunk (flow : Bool) : Text → Text × Text
  | [] => ([], [])
  | c :: t =>
    if endsAt flow c t then ([], c :: t) else (c :: (chunk flow t).1, (chunk flow t).2)

/-- The blank space after a chunk. -/
structure Gap where
  /-- What it stands for between two chunks. -/
  text : Text
  endsLine : Bool
  /-- The column after it, when it holds the end of a line. -/
  column : Nat
  /-- A mark between documents follows it. -/
  atMark : Bool
  rest : Text

/-- The line ends and blanks at the front of a text that stands at a column: the line ends, the
column after them, whether a mark between documents stopped them, and the rest. -/
def lineEnds : (column : Nat) → Text → Text × Nat × Bool × Text
  | column, [] => ([], column, false, [])
  | column, c :: t =>
    if column = 0 && atDocumentMark (c :: t) then ([], column, true, c :: t)
    else if c = ' ' then lineEnds (column + 1) t
    else if isBreak c then
      let (ends, rest) := lineEnds 0 t
      (breakOf c :: ends, rest)
    else ([], column, false, c :: t)

/-- What line ends stand for: the first for one blank, unless others follow it or it is one of the
separators of Unicode. -/
def fold (first : CodePoint) (others : Text) : Text :=
  if first ≠ '\n' then first :: others else if others.isEmpty then [' '] else others

def gap (t : Text) : Gap :=
  let blanks := t.takeWhile (· = CodePoint.ofChar ' ')
  match t.drop blanks.length with
  | [] => ⟨blanks, false, 0, false, []⟩
  | c :: rest =>
    if isBreak c then
      let (ends, column, atMark, rest) := lineEnds 0 rest
      ⟨fold (breakOf c) ends, true, column, atMark, rest⟩
    else ⟨blanks, false, 0, false, c :: rest⟩

/-- A plain scalar at the front of a text. -/
structure Found where
  /-- What it stands for. -/
  value : Text
  /-- The blank space after it holds the end of a line. -/
  endsLine : Bool
  rest : Text

/-- The chunks from here on, after a gap; each takes one unit of `fuel`. A line has to be indented
by `least` columns to go on. -/
def chunks (flow : Bool) (least : Nat) : (fuel : Nat) → Gap → Found
  | 0, g => ⟨[], g.endsLine, g.rest⟩
  | fuel + 1, g =>
    let (first, rest) := chunk flow g.rest
    let tooLow := g.endsLine && !flow && decide (g.column < least)
    if g.text.isEmpty || g.atMark || Text.startsWith "#" g.rest || tooLow || first.isEmpty then
      ⟨[], g.endsLine, g.rest⟩
    else
      let found := chunks flow least fuel (gap rest)
      { found with value := g.text ++ first ++ found.value }

/-- The plain scalar at the front of a text. -/
def read (flow : Bool) (least : Nat) (t : Text) : Found :=
  let (first, rest) := chunk flow t
  let found := chunks flow least t.length (gap rest)
  { found with value := first ++ found.value }

end RouteCatalog.Yaml.Token.Plain
