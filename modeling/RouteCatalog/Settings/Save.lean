import RouteCatalog.Settings.Load
import RouteCatalog.Yaml.Writer

/-!
# Saving settings

Settings are written as a YAML mapping into the settings file of their root, whose directory is
created where it is missing.
-/

namespace RouteCatalog.Settings

/-- The entries of settings, in order. -/
def entries (s : Settings) : List (Yaml × Yaml) := Setting.all.map fun f ↦ (.str f.name, s f)

def text (s : Settings) : Text := Yaml.write s.entries

/-- Why settings are not saved. -/
inductive SaveFault
  | path (fault : PathFault)
  /-- A directory or file cannot be written. -/
  | unwritable (fault : Files.Fault)

/-- Saves settings and gives their path. The store that results also holds the directories that were
created before a fault. -/
def save (settings : Settings) (s : Store) : Store × Except SaveFault Path :=
  match settings.configPath with
  | .error fault => (s, .error (.path fault))
  | .ok p =>
    match s.ensureDirectory p.parent with
    | (s, some fault) => (s, .error (.unwritable fault))
    | (s, none) =>
      match s.write p (Utf8.encode settings.text) with
      | .ok s => (s, .ok p)
      | .error fault => (s, .error (.unwritable fault))

end RouteCatalog.Settings
