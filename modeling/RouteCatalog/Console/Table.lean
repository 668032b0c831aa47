import RouteCatalog.Console.Lines
import RouteCatalog.Number.Binary64

/-!
# Tables

A table is a list of columns. A column is as wide as its widest line, or has a width of its own.
When the columns together are too wide for the console, the widest of those without a width of their
own are made narrower, down to the next widest, until the table fits; their cells then take several
lines.
-/

namespace RouteCatalog.Console

/-- A column of a table. -/
structure Column where
  header : Text
  cells : List Text
  /-- Where the lines of a cell stand. -/
  alignment : Alignment := .left
  /-- The width of the cells, when it does not follow from them. -/
  fixed : Option Nat := none

namespace Column

/-- The cells of a row, and the blanks at both sides of each. -/
def padding : Nat := 2

/-- A character that ends a line when the width of a cell is measured. -/
def endsLine (c : CodePoint) : Bool :=
  c = '\n' || c.between 0x1C 0x1E || c.toNat = 0x85 || c.toNat = 0x2028 || c.toNat = 0x2029

/-- The cells of the widest line; the line so far has `used`. -/
def widest : (used : Nat) → Text → Nat
  | used, [] => used
  | used, c :: t => if endsLine c then max used (widest 0 t) else widest (used + cell c) t

/-- The width of a column with its padding, if it is not too wide by itself. -/
def natural (room : Nat) (c : Column) : Nat :=
  match c.fixed with
  | some width => min room (width + padding)
  | none => ((c.header :: c.cells).map fun t ↦ min room (widest 0 t + padding)).foldl max 0

def cellLines (c : Column) (width : Nat) (t : Text) : List Text :=
  (lines .ellipsis c.alignment (width - padding) t).map fun line ↦ " " ++ line ++ " "

end Column

/-- Takes `excess` cells from the widths that are marked, evenly and at most `most` from each. The
cells that are left when the others have given theirs are shared among those that follow. -/
def shrink (most : Nat) : (excess : Nat) → List (Nat × Bool) → List Nat
  | _, [] => []
  | excess, (width, false) :: rest => width :: shrink most excess rest
  | excess, (width, true) :: rest =>
    let sharers := (rest.filter Prod.snd).length + 1
    let given := min most (Magnitude.roundDiv excess sharers)
    (width - given) :: shrink most (excess - given) rest

/-- Makes the widest of the columns that may shrink narrower until all fit into `room`; each round
takes one unit of `fuel`. -/
def fit (room : Nat) : (fuel : Nat) → List (Nat × Bool) → List Nat
  | 0, columns => columns.map Prod.fst
  | fuel + 1, columns =>
    let total := columns.foldr (fun column width ↦ column.1 + width) 0
    let flexible := (columns.filter Prod.snd).map Prod.fst
    let first := flexible.foldl max 0
    let second := (flexible.filter (· ≠ first)).foldl max 0
    if total ≤ room || first = second then columns.map Prod.fst
    else
      let most := min (total - room) (first - second)
      let marked := columns.map fun (width, free) ↦ (width, free && width = first)
      fit room fuel ((shrink most (total - room) marked).zip (columns.map Prod.snd))

/-- A table. -/
structure Table where
  title : Text
  columns : List Column

namespace Table

/-- A line of a frame: a left end, a filler, a separator between columns, and a right end. -/
structure Rule where
  left : CodePoint
  fill : CodePoint
  /-- What stands between columns. -/
  between : CodePoint
  right : CodePoint

/-- The line above the header. -/
def top : Rule := ⟨.ofNat 0x250F, .ofNat 0x2501, .ofNat 0x2533, .ofNat 0x2513⟩

/-- The line below the header. -/
def middle : Rule := ⟨.ofNat 0x2521, .ofNat 0x2501, .ofNat 0x2547, .ofNat 0x2529⟩

/-- The line below the rows. -/
def bottom : Rule := ⟨.ofNat 0x2514, .ofNat 0x2500, .ofNat 0x2534, .ofNat 0x2518⟩

/-- The upright lines of the header. -/
def heavy : CodePoint := .ofNat 0x2503

/-- The upright lines of the rows. -/
def light : CodePoint := .ofNat 0x2502

/-- A line of a frame around columns of the given widths. -/
def Rule.line (r : Rule) (widths : List Nat) : Text :=
  r.left :: Text.join [r.between] (widths.map fun n ↦ List.replicate n r.fill) ++ [r.right]

/-- The widths of the columns, with their padding. -/
def widths (t : Table) (room : Nat) : List Nat :=
  let room := room - (t.columns.length + 1)
  fit room (t.columns.length + 1) (t.columns.map fun c ↦ (c.natural room, c.fixed.isNone))

/-- The lines of a row, from the lines of its cells and the widths of the columns. -/
def rowLines (upright : CodePoint) (widths : List Nat) (cells : List (List Text)) : List Text :=
  let height := (cells.map List.length).foldl max 1
  (List.range height).map fun i ↦
    let pieces := (cells.zip widths).map fun (lines, width) ↦ (lines[i]?).getD (blanks width)
    upright :: Text.join [upright] pieces ++ [upright]

/-- The row of cells with an index. -/
def row (t : Table) (widths : List Nat) (i : Nat) : List Text :=
  rowLines light widths ((t.columns.zip widths).map fun (c, width) ↦
    c.cellLines width ((c.cells[i]?).getD []))

def header (t : Table) (widths : List Nat) : List Text :=
  rowLines heavy widths ((t.columns.zip widths).map fun (c, width) ↦ c.cellLines width c.header)

def height (t : Table) : Nat := (t.columns.map fun c ↦ c.cells.length).foldl max 0

def render (t : Table) (room : Nat) : Text :=
  let widths := t.widths room
  let whole := widths.foldr (· + ·) 0 + t.columns.length + 1
  unlines (lines .fold .center whole t.title ++ [top.line widths] ++ t.header widths ++
    [middle.line widths] ++ (List.range t.height).flatMap (t.row widths) ++ [bottom.line widths])

end Table

end RouteCatalog.Console
