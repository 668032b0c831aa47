import RouteCatalog.Catalog.Snapshot
import RouteCatalog.Yaml.Value

/-!
# Settings

The five settings of the program. Their values come from a YAML document, so a setting can hold any
YAML value; what cannot be used as a path is noticed when a path is asked for.

A layer gives some of the settings. Layers are stacked: a setting is the one of the highest layer
that gives it, and the defaults lie below all layers.
-/

namespace RouteCatalog

/-- The settings there are. -/
inductive Setting
  | rootDir
  /-- Where the snapshot is, seen from the root. -/
  | outputFile
  /-- Whether a new scan is compared with the earlier snapshot. -/
  | incremental
  | serveHost
  | servePort
  deriving DecidableEq

namespace Setting

/-- All settings, in the order in which they are written. -/
def all : List Setting := [.rootDir, .outputFile, .incremental, .serveHost, .servePort]

def name : Setting → Text
  | .rootDir => "root_dir"
  | .outputFile => "output_file"
  | .incremental => "incremental"
  | .serveHost => "serve_host"
  | .servePort => "serve_port"

end Setting

/-- A value for every setting. -/
abbrev Settings := Setting → Yaml

abbrev Layer := Setting → Option Yaml

namespace Layer

/-- The layer that gives nothing. -/
def none : Layer := fun _ ↦ Option.none

/-- The layer that gives one setting. -/
def one (f : Setting) (v : Yaml) : Layer := fun g ↦ if g = f then some v else Option.none

/-- Two layers, the first above the second. -/
def above (high low : Layer) : Layer := fun f ↦ (high f).or (low f)

/-- The settings among the entries of a mapping. Other entries mean nothing. -/
def ofEntries (entries : List (Yaml × Yaml)) : Layer := fun f ↦ Yaml.entry? f.name entries

def withoutNulls (l : Layer) : Layer := fun f ↦ (l f).filter fun v ↦ !v matches .null

end Layer

namespace Settings

/-- The settings that apply when no layer gives them. -/
def defaults (directory : Text) : Settings
  | .rootDir => .str directory
  | .outputFile => .str Snapshot.defaultFile
  | .incremental => .bool true
  | .serveHost => .str "127.0.0.1"
  | .servePort => .int 4173

def ofLayer (directory : Text) (l : Layer) : Settings := fun f ↦ (l f).getD (defaults directory f)

/-! ## Paths -/

/-- Why a setting is no path. -/
inductive PathFault
  | root (value : Yaml)
  | outputFile (value : Yaml)

/-- The wording of a fault. The module of a kind of value is left out where the root is at fault. -/
def PathFault.message : PathFault → Text
  | .root (.bytes _) =>
    "argument should be a str object or an os.PathLike object returning str, not <class 'bytes'>"
  | .root v =>
    "expected str, bytes or os.PathLike object, not " ++
      ((Text.dropLiteral? "datetime." v.kindName).getD v.kindName)
  | .outputFile v => "unsupported operand type(s) for /: 'PosixPath' and '" ++ v.kindName ++ "'"

def rootPath (s : Settings) : Except PathFault Path :=
  match s .rootDir with
  | .str t => .ok (.ofText t)
  | v => .error (.root v)

/-- Where the snapshot is. -/
def outputPath (s : Settings) : Except PathFault Path := do
  let root ← s.rootPath
  match s .outputFile with
  | .str t => return root ++ .ofText t
  | v => .error (.outputFile v)

/-- Where the settings are, seen from the root. -/
def file : Text := ".zeus-core/config.yaml"

def configPath (s : Settings) : Except PathFault Path := do return (← s.rootPath) ++ .ofText file

/-- The snapshot is compared with the earlier one. -/
def isIncremental (s : Settings) : Bool := (s .incremental).isTrue

end Settings

end RouteCatalog
