import RouteCatalog.Text.Blank
import RouteCatalog.Text.Split

/-!
# Lines of a console

A text is broken into lines that are no wider than the console. Lines are broken between words, and
the blanks between two words stay with the first of them; only blanks that would stick out are
dropped. A word wider than the console is cut into pieces, or, in the cell of a table, ends in an
ellipsis.

Width is counted in cells. Control characters and combining marks take none.
-/

namespace RouteCatalog.Console

/-- The characters that take no cell. -/
def zeroWidthRanges : List (Nat × Nat) := [(0x0, 0x1F), (0x7F, 0x9F), (0xAD, 0xAD), (0x300, 0x36F)]

def cell (c : CodePoint) : Nat := if c.inRanges zeroWidthRanges then 0 else 1

def cells (t : Text) : Nat := t.foldr (fun c width ↦ cell c + width) 0

/-- What becomes of a word that is too wide. -/
inductive Overflow
  /-- It goes on in the next line. -/
  | fold
  /-- It is cut, and an ellipsis shows this. -/
  | ellipsis
  deriving DecidableEq

/-- Where a line stands that is narrower than its place. -/
inductive Alignment
  /-- Its width does not matter. -/
  | free
  | left
  | right
  | center
  deriving DecidableEq

def blanks (n : Nat) : Text := List.replicate n (CodePoint.ofChar ' ')

/-- A text with every tab replaced by blanks up to a column that is a multiple of eight; the text
starts at the given column. -/
def expandTabs : (column : Nat) → Text → Text
  | _, [] => []
  | column, c :: t =>
    if c = '\t' then
      let width := 8 - column % 8
      blanks width ++ expandTabs (column + width) t
    else c :: expandTabs (column + cell c) t

/-- Adds a character in front of groups, each of which starts with its word or, the first perhaps,
with blanks. -/
def addToGroups (c : CodePoint) : List Text → List Text
  | [] => [[c]]
  | group :: rest =>
    if c.isBlank && !group.head?.any CodePoint.isBlank then [c] :: group :: rest
    else (c :: group) :: rest

/-- The words of a line. A word has the blanks after it, the first also those before it; blanks
alone are no word. -/
def words (t : Text) : List Text :=
  match t.foldr addToGroups [] with
  | [] => []
  | first :: rest =>
    if first.head?.any CodePoint.isBlank then
      match rest with
      | [] => []
      | word :: rest => (first ++ word) :: rest
    else first :: rest

/-- The pieces of a word that is wider than `width`; the first starts after `used` cells. -/
def pieces (width : Nat) : (used : Nat) → Text → List Text
  | _, [] => [[]]
  | used, c :: t =>
    let full := width < used + cell c
    match pieces width (if full then cell c else used + cell c) t with
    | [] => [[c]]
    | piece :: rest => if full then [] :: (c :: piece) :: rest else (c :: piece) :: rest

/-- Puts words into lines. The last line so far is `line` and has `used` cells. -/
def fill (overflow : Overflow) (width : Nat) : (line : Text) → (used : Nat) → List Text → List Text
  | line, _, [] => [line]
  | line, used, word :: rest =>
    let size := cells word.trimRight
    let done := if line.isEmpty then [] else [line]
    if used + size ≤ width then fill overflow width (line ++ word) (used + cells word) rest
    else if width < size && overflow = .fold then
      let cut := pieces width 0 word
      let last := cut.getLast?.getD []
      done ++ cut.dropLast ++ fill overflow width last (cells last) rest
    else if width < size || (0 < used && !line.isEmpty) then
      done ++ fill overflow width word (cells word) rest
    else fill overflow width (line ++ word) used rest

/-- The longest beginning of a text that has at most `width` cells. -/
def crop : (width : Nat) → Text → Text
  | _, [] => []
  | width, c :: t => if width < cell c then [] else c :: crop (width - cell c) t

/-- A line without the blanks at its end that stick out. -/
def dropExcess (width : Nat) (line : Text) : Text :=
  line.take (line.length - min (line.length - line.trimRight.length) (line.length - width))

/-- A line that is no wider than `width`. -/
def truncate (overflow : Overflow) (width : Nat) (line : Text) : Text :=
  if width < cells line then
    match overflow with
    | .fold => crop width line
    | .ellipsis => crop (width - 1) line ++ [CodePoint.ofNat 0x2026]
  else line

/-- A line put into its place. -/
def align (overflow : Overflow) (width : Nat) (line : Text) : Alignment → Text
  | .free => truncate overflow width line
  | .left =>
    let line := truncate overflow width line
    line ++ blanks (width - cells line)
  | .right =>
    let line := truncate overflow width line.trimRight
    blanks (width - cells line) ++ line
  | .center =>
    let line := truncate overflow width line.trimRight
    let left := (width - cells line) / 2
    blanks left ++ line ++ blanks (width - cells line - left)

def lines (overflow : Overflow) (alignment : Alignment) (width : Nat) (t : Text) : List Text :=
  t.lines.flatMap fun line ↦
    let line := if line.contains (CodePoint.ofChar '\t') then expandTabs 0 line else line
    let found := words line
    let broken := if found.isEmpty then [line] else fill overflow width [] 0 found
    broken.map fun line ↦ align overflow width (dropExcess width line) alignment

/-- Lines as a text: each with a line feed at its end. -/
def unlines (lines : List Text) : Text := lines.flatMap fun line ↦ line ++ [CodePoint.ofChar '\n']

def width : Nat := 400

/-- What is printed for a text: its lines. -/
def block (t : Text) : Text := unlines (lines .fold .free width t)

end RouteCatalog.Console
