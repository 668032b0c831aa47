import RouteCatalog.Catalog.Basic
import RouteCatalog.Files.Sources
import RouteCatalog.Json.Written
import RouteCatalog.Log
import RouteCatalog.Route.Dialect

/-!
# Scanning

A scan goes through files one at a time and lets every dialect that applies extract its endpoints,
in the order of the dialects. An extraction that fails costs its own endpoints and leaves a warning.
A file that cannot be read, or a dialect that cannot decide whether it applies, ends the scan
without a result.

Sources are decoded with replacement, so every file has a text, and every kind of line end becomes a
line feed.
-/

namespace RouteCatalog

namespace Scan

/-- Why a scan has no result. -/
inductive Fault
  | unreadable (fault : Files.Fault)
  /-- A dialect fails to decide whether it applies. -/
  | undecided (failure : Dialect.Failure)
  deriving DecidableEq

def Fault.message : Fault → Text
  | .unreadable fault => fault.message
  | .undecided failure => failure.message

/-- What one dialect found in one file, or why it failed. -/
structure Finding where
  dialect : Dialect
  outcome : Except Dialect.Failure (List Endpoint)

def sourceText (bytes : Bytes) : Text := (Utf8.decodeReplacing bytes).unifyNewlines

/-- The dialects that apply to a file. -/
def applicable (dialects : List Dialect) (file content : Text) :
    Except Dialect.Failure (List Dialect) :=
  dialects.filterMapM fun d ↦ do
    let applies ← d.applies file content
    return if applies then some d else none

/-- What the applicable dialects find in a file. -/
def findings (dialects : List Dialect) (file content : Text) :
    Except Dialect.Failure (List Finding) :=
  (applicable dialects file content).map fun ds ↦
    ds.map fun d ↦ ⟨d, d.extract file content⟩

/-- The endpoints of findings, in order. -/
def endpointsOf (fs : List Finding) : List Endpoint :=
  fs.flatMap fun f ↦
    match f.outcome with
    | .ok endpoints => endpoints
    | .error _ => []

/-- The warning for a dialect that fails on a file. -/
def warning (file name : Text) : Text := "Failed to parse " ++ file ++ " with " ++ name

/-- The warnings of findings in a file, in order. -/
def warningsOf (file : Text) (fs : List Finding) : List Text :=
  fs.filterMap fun f ↦
    match f.outcome with
    | .ok _ => none
    | .error _ => some (warning file f.dialect.name)

/-- What a scan gathers. -/
structure Gathered where
  endpoints : List Endpoint := []
  warnings : List Text := []

/-- Two gatherings, one after the other. -/
def Gathered.append (a b : Gathered) : Gathered :=
  ⟨a.endpoints ++ b.endpoints, a.warnings ++ b.warnings⟩

instance : Append Gathered := ⟨Gathered.append⟩

/-- The text of the file at a path. -/
def contentAt (s : Store) (p : Path) : Except Fault Text :=
  match s.read p with
  | .ok bytes => .ok (sourceText bytes)
  | .error fault => .error (.unreadable fault)

/-- What the file at a path gives. -/
def file (s : Store) (dialects : List Dialect) (p : Path) : Except Fault Gathered := do
  let content ← contentAt s p
  match findings dialects p.toText content with
  | .ok fs => .ok ⟨endpointsOf fs, warningsOf p.toText fs⟩
  | .error failure => .error (.undecided failure)

/-- What files give, one after the other. -/
def files (s : Store) (dialects : List Dialect) : List Path → Except Fault Gathered
  | [] => .ok {}
  | p :: rest => do
    let first ← file s dialects p
    let others ← files s dialects rest
    return first ++ others

/-- The directory that a scan is about, as an absolute path. -/
def rootOf (s : Store) (root : Text) : Path := (Path.ofText root).resolve s.directory

/-- The absolute path of a given file. A text that cannot be a path stays as it is written, and
nothing can be read there. -/
def givenPath (s : Store) (t : Text) : Path :=
  match Files.check t with
  | .ok _ => (Path.ofText t).resolve s.directory
  | .error _ => Path.ofText t

/-- The files that a scan reads: the given ones, or all sources below the directory. -/
def pathsOf (s : Store) (root : Text) : Option (List Text) → List Path
  | some given => given.map (givenPath s)
  | none => s.sources (rootOf s root).toText

def gather (s : Store) (dialects : List Dialect) (root : Text) (given : Option (List Text)) :
    Except Fault Gathered := do
  (Files.check root).mapError .unreadable
  files s dialects (pathsOf s root given)

end Scan

/-- Scans a directory, or only the given files. -/
def scan (s : Store) (dialects : List Dialect) (root : Text) (files : Option (List Text))
    (now : Text) : Except Scan.Fault Catalog :=
  (Scan.gather s dialects root files).map fun found ↦ {
    rootDir := (Scan.rootOf s root).toText
    endpoints := found.endpoints
    warnings := found.warnings
    scannedAt := now }

def Catalog.text (c : Catalog) : Text := c.toJson.indented 0

/-- The persisted text of a catalog, unless something in it cannot be written. -/
def Catalog.write (c : Catalog) : Except Json.Unwritable Text := c.toJson.write .layout

namespace Scan

/-! ## Log -/

def findingLog (file content : Text) (f : Finding) : List Log.Record :=
  List.replicate (f.dialect.plainBodies content)
      ⟨.debug, "zeus_core.scanner.docblock", "Request body is not JSON, keeping raw text"⟩ ++
    match f.outcome with
    | .ok _ => []
    | .error failure =>
      [⟨.warning, "zeus_core.scanner.engine",
          f.dialect.name ++ " matcher failed on " ++ file ++ ": " ++ failure.message⟩,
        ⟨.debug, "zeus_core.scanner.engine", "Extraction traceback"⟩]

/-- The log records of files, up to the first that ends the scan. -/
def filesLog (s : Store) (dialects : List Dialect) : List Path → List Log.Record
  | [] => []
  | p :: rest =>
    match contentAt s p with
    | .error _ => []
    | .ok content =>
      match findings dialects p.toText content with
      | .error _ => []
      | .ok fs => fs.flatMap (findingLog p.toText content) ++ filesLog s dialects rest

def log (s : Store) (dialects : List Dialect) (root : Text) : List Log.Record :=
  let paths := pathsOf s root none
  filesLog s dialects paths ++
    match gather s dialects root none with
    | .error _ => []
    | .ok found =>
      [⟨.debug, "zeus_core.scanner.engine",
        "Scanned " ++ Text.ofNat paths.length ++ " files under " ++
          (rootOf s root).toText ++ ": " ++ Text.ofNat found.endpoints.length ++ " endpoints, " ++
          Text.ofNat found.warnings.length ++ " warnings"⟩]

end Scan

end RouteCatalog
