import RouteCatalog.Files.Store

/-!
# Source files

A source file is a file with one of four suffixes that is not a declaration file. Directories of
tools, dependencies and build products are passed over. Within a directory the files come first, in
the order of their names, and then what its directories hold, in the order of theirs. So the
sequence does not depend on the order in which directories are listed.
-/

namespace RouteCatalog

namespace Sources

def suffixes : List Text := [".js", ".ts", ".mjs", ".cjs"]

/-- The directories that are passed over. -/
def skippedDirectories : List Text :=
  [".git", ".hg", ".svn", ".zeus-core", "node_modules", "bower_components", "coverage", ".next",
    ".nuxt", ".cache", "dist", "build", "out"]

/-- The name of a source file. Files of type declarations end in `.d.ts` and are none. -/
def isSource (name : Text) : Bool :=
  !Text.startsWith (Text.ofString ".d.ts").reverse name.reverse &&
    suffixes.contains (Path.suffixOf name)

/-- Puts the files of a directory and the sources of its directories in order. -/
def arrange (files : List Text) (directories : List (Text × List (List Text))) :
    List (List Text) :=
  (files.mergeSort Text.le).map ([·]) ++
    (directories.mergeSort fun a b ↦ Text.le a.1 b.1).flatMap fun (name, below) ↦
      below.map (name :: ·)

/-- The source files among the entries, and the directories that are not passed over with the
sources below them, in the order of the entries. -/
def listing : Tree → List Text × List (Text × List (List Text))
  | .empty => ([], [])
  | .file name _ rest =>
    let (files, directories) := listing rest
    (if isSource name then name :: files else files, directories)
  | .dir name inside rest =>
    let (files, directories) := listing rest
    let (filesInside, directoriesInside) := listing inside
    (files, if skippedDirectories.contains name then directories
      else (name, arrange filesInside directoriesInside) :: directories)

/-- The locations of the source files of a tree, in order. -/
def ofTree (t : Tree) : List (List Text) := arrange (listing t).1 (listing t).2

end Sources

/-- The paths of the source files below the directory that a text names. There are none below what
is not a directory, and none when the text is empty. -/
def Store.sources (s : Store) (root : Text) : List Path :=
  if root.isEmpty then []
  else
    let p := Path.ofText root
    match s.entry p with
    | .ok (.dir inside) => (Sources.ofTree inside).map fun names ↦ ⟨p.root, p.parts ++ names⟩
    | _ => []

end RouteCatalog
