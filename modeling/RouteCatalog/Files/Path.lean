import RouteCatalog.Text.Split

/-!
# Paths

A path is a root, empty for a relative path, and names. Repeated slashes and names that consist of
one point say nothing and are dropped when a path is read; names of two points stay, because what
they mean depends on the tree. Two leading slashes, and no more than two, are a root of their own.
-/

namespace RouteCatalog

/-- A path. -/
structure Path where
  /-- The root: empty, one slash or two. -/
  root : Text
  parts : List Text
  deriving DecidableEq

namespace Path

def rootOf (t : Text) : Text :=
  match (t.takeWhile (· = CodePoint.ofChar '/')).length with
  | 0 => []
  | 2 => "//"
  | _ => "/"

/-- Names between slashes; empty ones and single points are dropped. -/
def names (t : Text) : List Text :=
  (t.splitOn '/').filter fun name ↦ !name.isEmpty && name ≠ "."

def ofText (t : Text) : Path := ⟨rootOf t, names t⟩

/-- The text of a path; the empty relative path is a point. -/
def toText (p : Path) : Text :=
  if p.root.isEmpty && p.parts.isEmpty then "." else p.root ++ Text.join "/" p.parts

/-- The path `q` seen from `p`: an absolute `q` stands for itself. -/
def append (p q : Path) : Path := if q.root.isEmpty then ⟨p.root, p.parts ++ q.parts⟩ else q

instance : Append Path := ⟨append⟩

/-- The path that starts at the root. -/
def isAbsolute (p : Path) : Bool := !p.root.isEmpty

/-- The last name, empty when there is none. -/
def name (p : Path) : Text := p.parts.getLast?.getD []

/-- The path without its last name. -/
def parent (p : Path) : Path := ⟨p.root, p.parts.dropLast⟩

/-- The suffix of a name: its last point and what follows, unless the point is its first or its last
character. -/
def suffixOf (name : Text) : Text :=
  let ending := (name.reverse.takeWhile (· ≠ CodePoint.ofChar '.')).reverse
  let stem := name.length - ending.length - 1
  if ending.isEmpty || stem = 0 || ending.length = name.length then []
  else CodePoint.ofChar '.' :: ending

/-- The suffix of the last name. -/
def suffix (p : Path) : Text := suffixOf p.name

/-- Names with every name of two points and the name before it removed. -/
def normalNames (parts : List Text) : List Text :=
  parts.foldl (fun (done : List Text) (name : Text) ↦
    if name = ".." then done.dropLast else done ++ [name]) []

/-- The absolute path of `p` from a directory, without names of two points. -/
def resolve (directory : List Text) (p : Path) : Path :=
  ⟨"/", normalNames (if p.isAbsolute then p.parts else directory ++ p.parts)⟩

end Path

end RouteCatalog
