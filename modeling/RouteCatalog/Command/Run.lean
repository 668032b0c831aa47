import RouteCatalog.Command.Request
import RouteCatalog.Console.Markup
import RouteCatalog.Console.Table
import RouteCatalog.Settings.Save
import RouteCatalog.Site

/-!
# Running commands

A run changes the store and fills two streams, one for what was asked for and one for what is
reported on the way. It ends well, or with an exit code because something failed that the user can
mend, or it breaks off because of a value that no one expected. What was done and reported until
then remains.
-/

namespace RouteCatalog.Command

def version : Text := "0.1.0"

/-- What a run finds around it. -/
structure Surroundings where
  environment : Settings.Environment
  now : Text
  /-- The time of day in front of log records. -/
  clock : Text
  /-- What tells temporary files from others. -/
  tag : Text
  canServe : Bool
  render : Markup.Renderer

/-- What a run has done so far. -/
structure Progress where
  store : Store
  reported : Text := []

/-- An unexpected value that breaks off a run. -/
inductive Break
  /-- A path is none that the system takes. -/
  | noPath (fault : Files.Fault)
  /-- The settings cannot be loaded. -/
  | settings (fault : Settings.Fault)
  | path (fault : Settings.PathFault)
  /-- A dialect fails to decide whether it applies. -/
  | undecided (failure : Dialect.Failure)
  /-- The earlier snapshot nests too deeply. -/
  | tooDeep (container : Json.Container)
  /-- A value in a snapshot has no text. -/
  | value (why : Json.Unwritable)
  /-- The console cannot show what is printed. -/
  | markup (fault : Markup.Fault)

def Break.message : Break → Text
  | .noPath fault => fault.message
  | .settings fault => fault.message
  | .path fault => fault.message
  | .undecided failure => failure.message
  | .tooDeep c => c.tooDeepMessage
  | .value why => why.message
  | .markup fault => fault.message

/-- Why a run ends before its last step. -/
inductive Stop
  | failed
  | broken (why : Break)

/-- A step of a run: it may change what was done, and it gives a value or stops. -/
abbrev Run (α : Type) : Type := EStateM Stop Progress α

/-- A server at work. -/
structure Serving where
  host : Yaml
  port : Yaml
  /-- The snapshot that is served. -/
  outputPath : Path

/-- How much a server reports. -/
def Serving.logLevel : Text := "info"

namespace Run

def breakOff {α : Type} (why : Break) : Run α := throw (.broken why)

def report (t : Text) : Run Unit := modify fun p ↦ { p with reported := p.reported ++ t }

/-- The text that markup shows. -/
def shown (w : Surroundings) (markup : Text) : Run Text :=
  match w.render markup with
  | .ok t => pure t
  | .error fault => breakOff (.markup fault)

def print (w : Surroundings) (markup : Text) : Run Unit := do
  report (Console.block (← shown w markup))

def log (w : Surroundings) (verbose : Bool) (records : List Log.Record) : Run Unit :=
  report ((Log.shown verbose records).flatMap (Log.Record.line w.clock))

/-- Says that something failed, and stops. -/
def fail {α : Type} (w : Surroundings) (what : Text) (fault : Files.Fault) : Run α :=
  if fault.fromSystem then do
    print w ("[red]" ++ what ++ " failed:[/red] " ++ fault.message)
    throw .failed
  else breakOff (.noPath fault)

def styled (style t : Text) : Text := "[" ++ style ++ "]" ++ t ++ "[/" ++ style ++ "]"

def programName : Text := styled "bold" Scope.programName

def settings (w : Surroundings) (verbose : Bool) (root : Option Text) (given : Layer) :
    Run Settings := do
  let s := (← get).store
  log w verbose (Settings.loadLog s root)
  match Settings.load s root w.environment given with
  | .ok settings => return settings
  | .error fault => breakOff (.settings fault)

/-- Does what changes the store. -/
def change {α : Type} (act : Store → Store × α) : Run α := do
  let p ← get
  let (store, result) := act p.store
  set { p with store }
  return result

/-! ## Writing settings -/

def init (w : Surroundings) (verbose : Bool) (root : Option Text) : Run Unit := do
  let settings ← settings w verbose (root.filter (!·.isEmpty) |>.or (some ".")) .none
  match ← change settings.save with
  | .error (.path fault) => breakOff (.path fault)
  | .error (.unwritable fault) => fail w "Init" fault
  | .ok path =>
    print w (programName ++ " initialized in " ++ styled "cyan" (settings .rootDir).display)
    print w ("  Config written to " ++ styled "cyan" path.toText)

/-! ## Generating a snapshot -/

/-- The path of a file, seen from a directory. -/
def shortPath (file directory : Text) : Text :=
  match Text.dropLiteral? directory file with
  | some rest => rest.dropWhile (· = CodePoint.ofChar '/')
  | none => file

def lineCell : Option Int → Text
  | some n => if n = 0 then [] else Text.ofInt n
  | none => []

/-- The table of the endpoints of a catalog, in markup. -/
def table (c : Catalog) : Console.Table where
  title := "Endpoints"
  columns := [
    { header := "Method", cells := c.endpoints.map fun e ↦ e.verb.name, fixed := some 8 },
    { header := "Path", cells := c.endpoints.map Endpoint.path },
    { header := "Framework", cells := c.endpoints.map Endpoint.framework },
    { header := "File", cells := c.endpoints.map fun e ↦ shortPath e.sourceFile c.rootDir },
    { header := "Line", cells := c.endpoints.map fun e ↦ lineCell e.line, alignment := .right }]

/-- The column that markup shows. -/
def shownColumn (w : Surroundings) (column : Console.Column) : Run Console.Column := do
  let header ← shown w column.header
  let cells ← column.cells.mapM (shown w)
  return { column with header, cells }

def printTable (w : Surroundings) (t : Console.Table) : Run Unit := do
  let columns ← t.columns.mapM (shownColumn w)
  let title ← shown w t.title
  report (Console.Table.render ⟨title, columns⟩ Console.width)

def scanned (w : Surroundings) (verbose : Bool) (root : Text) : Run Catalog := do
  let s := (← get).store
  log w verbose (Scan.log s Dialect.builtIn root)
  match scan s Dialect.builtIn root none w.now with
  | .ok catalog => return catalog
  | .error (.unreadable fault) => fail w "Generate" fault
  | .error (.undecided failure) => breakOff (.undecided failure)

def persisted (w : Surroundings) (verbose : Bool) (c : Catalog) (root outputFile : Text)
    (incremental : Bool) : Run Snapshot.Written := do
  let s := (← get).store
  log w verbose (Snapshot.persistLog s c root outputFile incremental w.tag)
  match ← change fun s ↦ Snapshot.persist s c root outputFile incremental w.tag with
  | .ok written => return written
  | .error (.unwritable fault) => fail w "Generate" fault
  | .error (.tooDeep container) => breakOff (.tooDeep container)
  | .error (.value why) => breakOff (.value why)

/-- A setting that has to be a text. -/
def textOf (fault : Yaml → Settings.PathFault) : Yaml → Run Text
  | .str t => pure t
  | v => breakOff (.path (fault v))

def generate (w : Surroundings) (verbose : Bool) (root : Option Text)
    (incremental : Option Bool) (showTable : Bool) : Run Unit := do
  let given : Layer :=
    match incremental with
    | some b => .one .incremental (.bool b)
    | none => .none
  let settings ← settings w verbose root given
  print w (programName ++ " scanning " ++ styled "cyan" (settings .rootDir).display)
  let root ← textOf .root (settings .rootDir)
  let catalog ← scanned w verbose root
  let outputFile ← textOf .outputFile (settings .outputFile)
  let written ← persisted w verbose catalog root outputFile settings.isIncremental
  if showTable && !catalog.endpoints.isEmpty then
    printTable w (table catalog)
  print w ("Generated " ++ Text.ofNat written.written ++ " endpoints (unchanged: " ++
    Text.ofNat written.unchanged ++ ")")
  print w ("Output written to " ++ styled "cyan" written.outputPath.toText)
  if !catalog.warnings.isEmpty then
    print w (styled "yellow" ("Warnings: " ++ Text.ofNat catalog.warnings.length))
    for warning in catalog.warnings do print w ("  - " ++ warning)

/-! ## Serving the snapshot -/

/-- What is said when there is no server. -/
def noServer : Text :=
  "[red]Web dependencies not installed.[/red]\nInstall with: pip install zeus-core[web]"

def serve (w : Surroundings) (verbose : Bool) (root : Option Text) (port : Option Int) :
    Run Serving := do
  if !w.canServe then
    print w noServer
    throw .failed
  let given : Layer :=
    match port with
    | some n => .one .servePort (.int n)
    | none => .none
  let settings ← settings w verbose root given
  match settings.outputPath with
  | .error fault => breakOff (.path fault)
  | .ok outputPath =>
    let host := settings .serveHost
    let port := settings .servePort
    print w (programName ++ " serving " ++ styled "cyan" outputPath.toText)
    let address : Text := "http://" ++ host.display ++ ":" ++ port.display ++ Site.page
    print w ("  " ++ styled "cyan" address ++ "\n")
    return ⟨host, port, outputPath⟩

def task (w : Surroundings) (verbose : Bool) : Task → Run (Option Serving)
  | .init root => do
    init w verbose root
    return none
  | .generate root incremental showTable => do
    generate w verbose root incremental showTable
    return none
  | .serve root port => some <$> serve w verbose root port

end Run

/-! ## Outcomes -/

/-- How a command line turns out. -/
structure Outcome where
  store : Store
  exitCode : Nat
  answer : Text := []
  reported : Text := []
  broken : Option Break := none
  /-- The server that is at work from then on. -/
  serving : Option Serving := none

/-- What is shown for the version. -/
def versionText : Text := Scope.programName ++ ", version " ++ version ++ "\n"

def Reply.outcome (s : Store) : Reply → Outcome
  | .help scope => { store := s, exitCode := 0, answer := scope.help }
  | .version => { store := s, exitCode := 0, answer := versionText }
  | .nothing => { store := s, exitCode := 2, reported := Scope.program.help }
  | .refused why => { store := s, exitCode := 2, reported := why.report }
  | .noPath fault => { store := s, exitCode := 1, broken := some (.noPath fault) }

def Outcome.ofRun (s : Store) (r : Run (Option Serving)) : Outcome :=
  match r.run { store := s } with
  | .ok serving p => { store := p.store, exitCode := 0, reported := p.reported, serving }
  | .error .failed p => { store := p.store, exitCode := 1, reported := p.reported }
  | .error (.broken why) p =>
    { store := p.store, exitCode := 1, reported := p.reported, broken := some why }

def run (w : Surroundings) (s : Store) (args : List Text) : Outcome :=
  let outcome :=
    match request s args with
    | .error reply => reply.outcome s
    | .ok ⟨verbose, task⟩ => .ofRun s (Run.task w verbose task)
  { outcome with reported := Console.withSurrogatesShown outcome.reported }

end RouteCatalog.Command
