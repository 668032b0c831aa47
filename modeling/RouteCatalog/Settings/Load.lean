import RouteCatalog.Settings.Basic
import RouteCatalog.Yaml.Reader

/-!
# Loading settings

Four layers lie above the defaults, from low to high: the settings file of the root, the
environment, the values given by the caller, and a root given by the caller.

A settings file that is missing, not YAML, or not a mapping gives nothing. Its values are taken as
they are, except that the port becomes an integer and the comparison a truth value; a port that is
no integer is not given. Values with a fault of their own stop the loading.
-/

namespace RouteCatalog.Settings

/-- Why settings are not loaded. -/
inductive Fault
  | root (fault : Files.Fault)
  /-- The settings file is not UTF-8. -/
  | undecodable (fault : Utf8.Fault)
  | badValue (fault : Yaml.Fault)
  | infinitePort
  | environmentPort (fault : Numeral.Fault)
  deriving DecidableEq

def Fault.message : Fault → Text
  | .root fault => fault.message
  | .undecodable fault => fault.message
  | .badValue fault => fault.message
  | .infinitePort => "cannot convert float infinity to integer"
  | .environmentPort fault => fault.message

/-! ## Values -/

def trueWords : List Text := ["1", "true", "yes", "on"]

/-- The truth value that a text stands for: truth for four words in any case, with blanks around
them; falsity for all else. -/
def truthOfText (t : Text) : Bool := trueWords.contains t.trim.lower

/-- The truth value that a value stands for. -/
def truthOf : Yaml → Bool
  | .str t => truthOfText t
  | v => v.isTrue

/-- The text of binary data as far as numerals go: bytes outside ASCII are no digits. -/
def numeralOfBytes (data : Bytes) : Text :=
  data.map fun b ↦ if b.toNat < 0x80 then .ofNat b.toNat else .ofNat 0xFFFD

/-- The integer that a value stands for. A fraction is cut off; nothing when there is none. -/
def integerOf : Yaml → Except Fault (Option Int)
  | .bool b => .ok (some (if b then 1 else 0))
  | .int i => .ok (some i)
  | .float .nan => .ok none
  | .float (.infinite _) => .error .infinitePort
  | .float (.finite negative m) => .ok (some (if negative then -(m.floor : Int) else m.floor))
  | .str t => .ok (Numeral.read t).toOption
  | .bytes data => .ok (Numeral.read (numeralOfBytes data)).toOption
  | _ => .ok none

/-! ## Layers -/

/-- What a settings file holds. -/
inductive Contents
  /-- It cannot be used: it is missing, a directory, or malformed. -/
  | unusable (why : Text)
  | noMapping
  | entries (entries : List (Yaml × Yaml))

def contents (s : Store) (p : Path) : Except Fault Contents :=
  match s.read p with
  | .error fault =>
    if fault.fromSystem then .ok (.unusable fault.message) else .error (.root fault)
  | .ok bytes =>
    match Utf8.decode bytes with
    | .error fault => .error (.undecodable fault)
    | .ok t =>
      match Yaml.read t.unifyNewlines with
      | .error .malformed => .ok (.unusable Yaml.Fault.malformed.message)
      | .error fault => .error (.badValue fault)
      | .ok (.map entries) => .ok (.entries entries)
      | .ok _ => .ok .noMapping

def fileLayer (entries : List (Yaml × Yaml)) : Except Fault Layer := do
  let given := Layer.ofEntries entries
  let port ←
    match given .servePort with
    | some v => integerOf v
    | none => pure none
  return fun
    | .servePort => port.map .int
    | .incremental => (given .incremental).map fun v ↦ .bool (truthOf v)
    | f => given f

/-- The variables of the environment that give settings; an empty one gives none. -/
structure Environment where
  servePort : Option Text := none
  /-- Whether a new scan is compared with the earlier snapshot. -/
  incremental : Option Text := none
  deriving DecidableEq

def environmentLayer (e : Environment) : Except Fault Layer := do
  let port ←
    match e.servePort.filter (!·.isEmpty) with
    | some t =>
      match Numeral.read t with
      | .ok n => pure (some (.int n))
      | .error fault => .error (.environmentPort fault)
    | none => pure none
  let incremental := (e.incremental.filter (!·.isEmpty)).map fun t ↦ Yaml.bool (truthOfText t)
  return fun
    | .servePort => port
    | .incremental => incremental
    | _ => none

/-! ## Loading -/

/-- The root that a caller asks for; an empty one counts as none. -/
def explicitRoot (s : Store) (root : Option Text) : Option Path :=
  (root.filter (!·.isEmpty)).map fun t ↦ (Path.ofText t).resolve s.directory

def workingPath (s : Store) : Path := ⟨"/", s.directory⟩

def fileIn (root : Path) : Path := root ++ Path.ofText file

/-- The settings of a project: those of its root, or of the working directory when the caller gives
no root. The caller's null values count as not given. -/
def load (s : Store) (root : Option Text) (environment : Environment) (given : Layer) :
    Except Fault Settings := do
  let explicit := explicitRoot s root
  (Files.check (root.getD [])).mapError .root
  let found ← contents s (fileIn (explicit.getD (workingPath s)))
  let low ←
    match found with
    | .entries entries => fileLayer entries
    | _ => pure Layer.none
  let middle ← environmentLayer environment
  let top : Layer :=
    match explicit with
    | some p => .one .rootDir (.str p.toText)
    | none => .none
  return ofLayer (workingPath s).toText
    (top.above (given.withoutNulls.above (middle.above low)))

def loadLog (s : Store) (root : Option Text) : List Log.Record :=
  let record (message : Text) : List Log.Record := [⟨.debug, "zeus_core.config", message⟩]
  let p := fileIn ((explicitRoot s root).getD (workingPath s))
  match Files.check (root.getD []), contents s p with
  | .error _, _ | _, .error _ => []
  | _, .ok (.unusable why) => record ("Skipping config " ++ p.toText ++ ": " ++ why)
  | _, .ok .noMapping => record ("Config " ++ p.toText ++ " is not a mapping, ignoring")
  | _, .ok (.entries entries) =>
    match Layer.ofEntries entries .servePort with
    | none => []
    | some v =>
      match integerOf v with
      | .ok none =>
        record ("Ignoring invalid serve_port " ++ v.literal ++ " in " ++ p.toText)
      | _ => []

end RouteCatalog.Settings
