import RouteCatalog.Catalog.Reconcile
import RouteCatalog.Scan

/-!
# Snapshots

The snapshot file holds the catalog of the last scan. It is read once, to count the endpoints that
did not change, and then replaced as a whole: the new text goes to a temporary file beside it, which
takes its place in one step. A reader therefore sees the old text or the new one, and a write that
fails leaves the old text and no temporary file.

A snapshot that is missing, not UTF-8, not JSON or of another shape counts as none. JSON that nests
too deeply is different: it stops the writing. So does a value that cannot be written, be it while
counting or while making the new text; a temporary file is created only after that.
-/

namespace RouteCatalog

namespace Snapshot

/-- The directory of the program's own files. -/
def directory : Text := ".zeus-core"

/-- Where the snapshot is by default, seen from the root. -/
def defaultFile : Text := ".zeus-core/output.json"

/-! ## Reading -/

/-- Why a file holds no usable snapshot. -/
inductive Unusable
  | unreadable (fault : Files.Fault)
  | undecodable (fault : Utf8.Fault)
  | notJson (source : Text) (fault : Json.Fault)
  /-- It is not an object with a list of endpoints. -/
  | badShape

/-- A usable snapshot: the value, and the entries in it. -/
structure Loaded where
  value : Json
  /-- The list of endpoints in it. -/
  entries : List Json

def ofText (t : Text) : Except Unusable Loaded :=
  match Json.read t with
  | .error fault => .error (.notJson t fault)
  | .ok (.obj members) =>
    match Json.member? "endpoints" members with
    | some (.arr entries) => .ok ⟨.obj members, entries⟩
    | _ => .error .badShape
  | .ok _ => .error .badShape

def load (s : Store) (p : Path) : Except Unusable Loaded :=
  match s.read p with
  | .error fault => .error (.unreadable fault)
  | .ok bytes =>
    match Utf8.decode bytes with
    | .error fault => .error (.undecodable fault)
    | .ok t => ofText t.unifyNewlines

/-- The snapshot in a file, if there is a usable one. Nesting that is too deep is a fault. -/
def read (s : Store) (p : Path) : Except Json.Container (Option Loaded) :=
  match load s p with
  | .ok loaded => .ok (some loaded)
  | .error (.notJson _ (.tooDeep c)) => .error c
  | .error _ => .ok none

def readLog (s : Store) (p : Path) : List Log.Record :=
  let record (message : Text) : List Log.Record :=
    [⟨.debug, "zeus_core.snapshot", message⟩]
  let unusable (why : Text) : List Log.Record :=
    record ("No usable snapshot at " ++ p.toText ++ ": " ++ why)
  match load s p with
  | .ok _ => []
  | .error (.unreadable fault) => unusable fault.message
  | .error (.undecodable fault) => unusable fault.message
  | .error (.notJson _ (.tooDeep _)) => []
  | .error (.notJson source fault) => unusable (fault.message source)
  | .error .badShape => record ("Snapshot at " ++ p.toText ++ " has unexpected shape, ignoring")

/-! ## Writing -/

/-- The temporary file beside a path, told from others by a tag. -/
def temporary (s : Store) (p : Path) (tag : Text) : Path :=
  let beside := p.parent.resolve s.directory
  let name : Text := "." ++ p.name ++ "." ++ tag ++ ".tmp"
  ⟨beside.root, beside.parts ++ [name]⟩

/-- Gives a path new contents in one step, by way of a temporary file. -/
def replaceWhole (s : Store) (p : Path) (tag : Text) (content : Bytes) :
    Store × Option Files.Fault :=
  let temp := temporary s p tag
  match s.createFile temp with
  | .error fault => (s, some fault)
  | .ok created =>
    let discard (s : Store) : Store := (s.remove temp).toOption.getD s
    match created.appendTo temp content with
    | .error fault => (discard created, some fault)
    | .ok written =>
      match written.replace temp p with
      | .error fault => (discard written, some fault)
      | .ok replaced => (replaced, none)

/-- Why a catalog is not persisted. -/
inductive Fault
  /-- A directory or file cannot be written. -/
  | unwritable (fault : Files.Fault)
  | tooDeep (container : Json.Container)
  /-- A value in the catalog, or in the earlier snapshot, has no text. -/
  | value (why : Json.Unwritable)
  deriving DecidableEq

def Fault.message : Fault → Text
  | .unwritable fault => fault.message
  | .tooDeep c => c.tooDeepMessage
  | .value why => why.message

/-- What was persisted. -/
structure Written where
  outputPath : Path
  /-- The number of endpoints in it. -/
  written : Nat
  /-- The number of them that did not change. -/
  unchanged : Nat
  deriving DecidableEq

/-- The number of endpoints that the snapshot in a file already has. -/
def countUnchanged (s : Store) (p : Path) (endpoints : List Endpoint) : Except Fault Nat :=
  match read s p with
  | .error container => .error (.tooDeep container)
  | .ok none => .ok 0
  | .ok (some loaded) => (Reconcile.countIn loaded.entries endpoints).mapError .value

/-- Where the snapshot of a root is. -/
def pathFor (root outputFile : Text) : Path := Path.ofText root ++ Path.ofText outputFile

/-- Writes a catalog as the snapshot of a root. Counting what did not change, on request, is the
only thing that depends on the earlier snapshot; every endpoint is written. The store that results
also holds the directories that were created before a fault. -/
def persist (s : Store) (c : Catalog) (root outputFile : Text) (incremental : Bool) (tag : Text) :
    Store × Except Fault Written :=
  let path := pathFor root outputFile
  match s.ensureDirectory path.parent with
  | (s, some fault) => (s, .error (.unwritable fault))
  | (s, none) =>
    match if incremental then countUnchanged s path c.endpoints else .ok 0 with
    | .error fault => (s, .error fault)
    | .ok unchanged =>
      match c.write with
      | .error why => (s, .error (.value why))
      | .ok text =>
        match replaceWhole s path tag (Utf8.encode text) with
        | (s, some fault) => (s, .error (.unwritable fault))
        | (s, none) => (s, .ok ⟨path, c.endpoints.length, unchanged⟩)

def persistLog (s : Store) (c : Catalog) (root outputFile : Text) (incremental : Bool)
    (tag : Text) : List Log.Record :=
  let path := pathFor root outputFile
  match s.ensureDirectory path.parent with
  | (_, some _) => []
  | (made, none) =>
    (if incremental then readLog made path else []) ++
      match (persist s c root outputFile incremental tag).2 with
      | .error _ => []
      | .ok written =>
        [⟨.debug, "zeus_core.snapshot",
          "Wrote " ++ Text.ofNat written.written ++ " endpoints to " ++ path.toText⟩]

end Snapshot

end RouteCatalog
