import RouteCatalog.Yaml.Meaning
import RouteCatalog.Yaml.Node.Reader

/-!
# Reading YAML

A text is cut into tokens, the tokens make up a tree of nodes, and the tree denotes a value.
-/

namespace RouteCatalog.Yaml

/-- The value of a document. Its lines end in line feeds. An empty text is null. -/
def read (t : Text) : Except Fault Yaml := do
  match ← Node.document (Token.all t) with
  | none => return .null
  | some n => n.denote

end RouteCatalog.Yaml
