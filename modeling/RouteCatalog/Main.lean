import RouteCatalog.Catalog.Moment
import RouteCatalog.Command.Run
import Std.Time.DateTime.Timestamp

/-!
# The program

Reads the directories that a command line and the settings lead to into a store, runs the command
line on it, and brings the files up to the store that results. Directories that hold no sources are
not read. Links are passed over.

This program has no server, so the command that needs one says that it is missing. Its console has
no styles.
-/

namespace RouteCatalog.Program

/-- The bytes of a file as a list. -/
def bytesOf (b : ByteArray) : Bytes := b.toList

/-- A list of bytes as the contents of a file. -/
def contentOf (b : Bytes) : ByteArray := ⟨b.toArray⟩

/-- A directory is read: it can hold sources, or the files of the program itself. -/
def isRead (name : Text) : Bool :=
  name = Snapshot.directory || !Sources.skippedDirectories.contains name

/-- The contents of a directory, empty when it cannot be read. -/
partial def treeAt (place : String) : IO Tree := do
  let directory ← IO.FS.realPath place
  let entries ← try directory.readDir catch _ => pure #[]
  entries.foldlM (fun (t : Tree) (e : IO.FS.DirEntry) ↦ do
    let name := Text.ofString e.fileName
    try
      match (← e.path.symlinkMetadata).type with
      | .file => return t.cons name (.file (bytesOf (← IO.FS.readBinFile e.path)))
      | .dir =>
        if isRead name then return t.cons name (.dir (← treeAt e.path.toString)) else return t
      | _ => return t
    catch _ => return t) .empty

def isDirectory (place : String) : IO Bool := do
  try
    let directory ← IO.FS.realPath place
    return (← directory.metadata).type == .dir
  catch _ => return false

/-- A store that also holds what is at a path. -/
def load (s : Store) (p : Path) : IO Store := do
  let p := p.resolve s.directory
  let place := p.toText.toString
  if ← isDirectory place then
    let (s, _) := s.ensureDirectory p
    return { s with files := s.files.setAt (.dir (← treeAt place)) p.parts }
  else return s

/-- The directories that an argument can name: itself, or the operand of a switch. -/
def named (arg : Text) : List Text :=
  [arg, arg.drop 2] ++ (Command.Arguments.splitForm arg).2.toList

/-- The directories that the settings for a command line lead to. -/
def configured (s : Store) (environment : Settings.Environment) (args : List Text) : List Path :=
  let root : Option Text :=
    match Command.request s args with
    | .ok ⟨_, .init root⟩ | .ok ⟨_, .generate root _ _⟩ | .ok ⟨_, .serve root _⟩ => root
    | .error _ => none
  match Settings.load s root environment .none with
  | .ok settings =>
    settings.rootPath.toOption.toList ++ (settings.outputPath.map Path.parent).toOption.toList
  | .error _ => []

/-- Gives the file at a place new contents in one step. -/
def replaceFile (tag : Text) (place : String) (content : Bytes) : IO Unit := do
  let temporary := place ++ "." ++ tag.toString
  IO.FS.writeBinFile temporary (contentOf content)
  IO.FS.rename temporary place

/-- Brings the file at a location up to a store. -/
def writeBack (tag : Text) (before after : Store) (names : List Text) (isDirectory : Bool) :
    IO Unit := do
  let p : Path := ⟨"/", names⟩
  let place := p.toText.toString
  if isDirectory then
    if (before.files.at? names).isNone then IO.FS.createDirAll place
  else match before.read p, after.read p with
    | .ok old, .ok new => if old ≠ new then replaceFile tag place new
    | .error _, .ok new => replaceFile tag place new
    | _, .error _ => return

def environmentValue (name : String) : IO (Option Text) := do
  return (← IO.getEnv name).map Text.ofString

/-- Runs the program with the given arguments. -/
def main (args : List String) : IO UInt32 := do
  let args := args.map Text.ofString
  let now : Moment := ⟨(← Std.Time.Timestamp.now).toMillisecondsSinceUnixEpoch.toInt.toNat⟩
  let environment : Settings.Environment :=
    ⟨← environmentValue "ZEUS_CORE_SERVE_PORT", ← environmentValue "ZEUS_CORE_INCREMENTAL"⟩
  let tag := Text.ofHex 8 (← IO.rand 0 0xFFFFFFFF)
  let directory := Path.ofText (Text.ofString (← IO.currentDir).toString)
  let start : Store := ⟨.empty, directory.parts⟩
  let named := (args.flatMap named).map Path.ofText
  let s ← (directory :: named).foldlM load start
  let s ← (configured s environment args).foldlM load s
  let w : Command.Surroundings := ⟨environment, now.stamp, now.timeOfDay, tag, false, Markup.render⟩
  let o := Command.run w s args
  for (names, isDirectory) in o.store.files.locations [] do
    writeBack tag s o.store names isDirectory
  IO.print o.answer.toString
  IO.eprint o.reported.toString
  if let some why := o.broken then IO.eprintln why.message.toString
  return o.exitCode.toUInt32

end RouteCatalog.Program

/-- The entry point. -/
def main (args : List String) : IO UInt32 := RouteCatalog.Program.main args
