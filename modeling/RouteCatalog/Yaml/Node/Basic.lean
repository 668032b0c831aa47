import RouteCatalog.Yaml.Tag

/-!
# Nodes

A document is a tree of tagged nodes. References are gone: each is a copy of the node it refers to.
-/

namespace RouteCatalog.Yaml

/-- A node of a document. -/
inductive Node
  | scalar (tag : Tag) (text : Text)
  | seq (tag : Tag) (items : List Node)
  | map (tag : Tag) (entries : List (Node × Node))

namespace Node

def tag : Node → Tag
  | .scalar tag _ | .seq tag _ | .map tag _ => tag

/-- The node where nothing is written. -/
def empty : Node := .scalar .null []

instance : Inhabited Node := ⟨empty⟩

end Node

end RouteCatalog.Yaml
