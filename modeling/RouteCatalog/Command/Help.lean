import RouteCatalog.Command.Basic
import RouteCatalog.Console.Lines

/-!
# Help

The help of a scope shows how it is used, what it is about, its switches, and for the program itself
also the commands. Switches and commands are listed in two columns. An entry whose first column is
too wide has its second column in the next line.
-/

namespace RouteCatalog.Command.Help

def width : Nat := 80

/-- How far the parts below a heading stand to the right. -/
def indent : Nat := 2

/-- The blanks between two columns. -/
def spacing : Nat := 2

/-- The most cells that widen the first column. -/
def widestFirst : Nat := 30

/-- Puts words into lines of a width; `line` is what the current line holds. -/
def fill (width : Nat) : (line : Text) → List Text → List Text
  | line, [] => if line.isEmpty then [] else [line]
  | line, word :: rest =>
    if line.isEmpty then fill width word rest
    else if line.length + 1 + word.length ≤ width then fill width (line ++ " " ++ word) rest
    else line :: fill width word rest

/-- The lines of a text of a width. -/
def wrap (width : Nat) (t : Text) : List Text := fill width [] (t.splitOn ' ')

/-- A line that stands to the right. -/
def indented (n : Nat) (line : Text) : Text := Console.blanks n ++ line

/-- The lines of an entry in two columns, from the width of the first with the spacing after it. -/
def entry (first : Nat) (name text : Text) : List Text :=
  let name' := indented indent name
  match wrap (width - first - indent) text with
  | [] => [name']
  | line :: rest =>
    let rest := rest.map (indented (first + indent))
    if name.length + spacing ≤ first then
      (name' ++ Console.blanks (first - name.length) ++ line) :: rest
    else name' :: indented (first + indent) line :: rest

/-- The lines of entries in two columns. -/
def columns (entries : List (Text × Text)) : List Text :=
  let first := min widestFirst ((entries.map fun (name, _) ↦ name.length).foldl max 0) + spacing
  entries.flatMap fun (name, text) ↦ entry first name text

/-- The forms of a switch and its operand. -/
def forms (s : Switch) : Text :=
  let short : List Text := s.letter?.toList.map Switch.shortForm
  let operand : Text :=
    match s.operand? with
    | some o => " " ++ o.name
    | none => []
  Text.join ", " (short ++ [Text.join " / " s.longForms]) ++ operand

end Help

namespace Scope

def usage (s : Scope) : Text := "Usage: " ++ s.words ++ " " ++ s.arguments

def helpLines (s : Scope) : List Text :=
  let commands : List Text :=
    match s with
    | .program => [] :: "Commands:" :: Help.columns (all.map fun c ↦ (c.name, c.purpose))
    | .command _ => []
  ([s.usage, [], Help.indented Help.indent s.purpose, [], "Options:"] : List Text) ++
    Help.columns (s.switches.map fun w ↦ (Help.forms w, w.purpose)) ++ commands

def help (s : Scope) : Text := Console.unlines s.helpLines

end Scope

end RouteCatalog.Command
