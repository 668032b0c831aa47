import RouteCatalog.Files.Fault
import RouteCatalog.Files.Path
import RouteCatalog.Files.Tree

/-!
# The store of files

A store is the tree below the root directory together with the working directory. Its operations
name files by paths. A path is followed name by name: every name but the last has to lead to a
directory, also before a name of two points, and the first that does not decides the fault. There
are no links, so a name of two points leads back to the directory before.

Names are limited in length. The limit that systems set on whole paths is left out: a tree may be of
any depth, and each of its files has a path.
-/

namespace RouteCatalog

/-- The files there are, and the working directory. -/
structure Store where
  /-- What is below the root directory. -/
  files : Tree
  /-- The location of the working directory. -/
  directory : List Text

namespace Store

open Files

/-- The most bytes a name may have. -/
def maxNameLength : Nat := 255

/-- Follows names from a location. The location that is reached may be free; all before it are
directories. -/
def follow (s : Store) (location : List Text) : List Text → Except Cause (List Text)
  | [] => .ok location
  | name :: rest =>
    match s.files.at? location with
    | none => .error .noEntry
    | some (.file _) => .error .notDirectory
    | some (.dir _) =>
      if maxNameLength < byteLength name then .error .nameTooLong
      else s.follow (if name = ".." then location.dropLast else location ++ [name]) rest

/-- The location that a path leads to. -/
def locate (s : Store) (p : Path) : Except Cause (List Text) :=
  match refusal? p.parts.flatten with
  | some cause => .error cause
  | none => s.follow (if p.isAbsolute then [] else s.directory) p.parts

def entry (s : Store) (p : Path) : Except Cause Entry := do
  let location ← s.locate p
  match s.files.at? location with
  | some e => .ok e
  | none => .error .noEntry

/-- The path leads to a directory. -/
def isDirectory (s : Store) (p : Path) : Bool :=
  match s.entry p with
  | .ok (.dir _) => true
  | _ => false

def read (s : Store) (p : Path) : Except Fault Bytes :=
  match s.entry p with
  | .ok (.file content) => .ok content
  | .ok (.dir _) => .error ⟨.isDirectory, p.toText, none⟩
  | .error cause => .error ⟨cause, p.toText, none⟩

def createDirectory (s : Store) (p : Path) : Except Cause Store := do
  let location ← s.locate p
  match s.files.at? location with
  | some _ => .error .alreadyExists
  | none => .ok { s with files := s.files.setAt (.dir .empty) location }

/-- Makes sure that a directory exists, creating what is missing on the way to it. The names of the
path are given last one first. A fault leaves the directories that were created. -/
def ensureDirectoryAt (s : Store) (root : Text) : List Text → Store × Option Fault
  | [] => (s, none)
  | name :: above =>
    let p : Path := ⟨root, (name :: above).reverse⟩
    match s.createDirectory p with
    | .ok s => (s, none)
    | .error .noEntry =>
      match s.ensureDirectoryAt root above with
      | (s, some fault) => (s, some fault)
      | (s, none) =>
        match s.createDirectory p with
        | .ok s => (s, none)
        | .error cause =>
          (s, if cause ≠ .noEntry && s.isDirectory p then none else some ⟨cause, p.toText, none⟩)
    | .error cause => (s, if s.isDirectory p then none else some ⟨cause, p.toText, none⟩)

/-- Makes sure that a directory exists. -/
def ensureDirectory (s : Store) (p : Path) : Store × Option Fault :=
  s.ensureDirectoryAt p.root p.parts.reverse

/-- Writes a file, over the one that is there. -/
def write (s : Store) (p : Path) (content : Bytes) : Except Fault Store :=
  match s.locate p with
  | .error cause => .error ⟨cause, p.toText, none⟩
  | .ok location =>
    match s.files.at? location with
    | some (.dir _) => .error ⟨.isDirectory, p.toText, none⟩
    | _ => .ok { s with files := s.files.setAt (.file content) location }

/-- Creates an empty file where there is nothing. -/
def createFile (s : Store) (p : Path) : Except Fault Store :=
  match s.locate p with
  | .error cause => .error ⟨cause, p.toText, none⟩
  | .ok location =>
    match s.files.at? location with
    | some _ => .error ⟨.alreadyExists, p.toText, none⟩
    | none => .ok { s with files := s.files.setAt (.file []) location }

/-- Adds bytes to the end of a file. -/
def appendTo (s : Store) (p : Path) (more : Bytes) : Except Fault Store :=
  match s.locate p with
  | .error cause => .error ⟨cause, p.toText, none⟩
  | .ok location =>
    match s.files.at? location with
    | some (.file content) =>
      .ok { s with files := s.files.setAt (.file (content ++ more)) location }
    | some (.dir _) => .error ⟨.isDirectory, p.toText, none⟩
    | none => .error ⟨.noEntry, p.toText, none⟩

/-- Removes what a path leads to, with all that is below it. -/
def remove (s : Store) (p : Path) : Except Fault Store :=
  match s.locate p with
  | .error cause => .error ⟨cause, p.toText, none⟩
  | .ok location =>
    match s.files.at? location with
    | none => .error ⟨.noEntry, p.toText, none⟩
    | some _ => .ok { s with files := s.files.eraseAt location }

/-- Moves a file to another path in one step, over the file that is there. A directory is never
replaced, nor is a path that ends in no name of its own. -/
def replace (s : Store) (p target : Path) : Except Fault Store :=
  let fault (cause : Cause) : Except Fault Store :=
    .error ⟨cause, p.toText, some target.toText⟩
  match s.locate p, s.locate target with
  | .error cause, _ => fault cause
  | _, .error cause => fault cause
  | .ok source, .ok destination =>
    if target.parts.isEmpty || target.name = ".." then fault .busy
    else match s.files.at? source, s.files.at? destination with
      | none, _ => fault .noEntry
      | _, some (.dir _) => fault .isDirectory
      | some (.dir _), _ => fault .notDirectory
      | some (.file content), _ =>
        if source = destination then .ok s
        else .ok { s with files := (s.files.setAt (.file content) destination).eraseAt source }

end Store

end RouteCatalog
