import RouteCatalog.Yaml.Node.Basic
import RouteCatalog.Yaml.Scalar

/-!
# What nodes denote

Every node denotes a value, or has a fault. Of several faults the one that counts lies least deep,
and of those the first: a collection is looked at as a whole before anything inside it. A fault in
the kind of a collection counts among the faults inside it.

Mappings may be merged into a mapping under a special key. Their entries go in front of its own, so
that its own have the last word. One merge may lead to another through references, for which there
is no limit here: only nesting as it is written is limited.
-/

namespace RouteCatalog.Yaml

/-- What a node denotes, if there is no fault. -/
structure Denoted where
  value : Yaml
  /-- The first fault at each depth, beginning with the node itself. -/
  faults : List (Option Fault)

namespace Denoted

/-- A value without faults. -/
def pure (value : Yaml) : Denoted := ⟨value, []⟩

/-- A node with a fault. -/
def refused (fault : Fault) : Denoted := ⟨.null, [some fault]⟩

/-- A node that cannot be the collection that its tag asks for. -/
def misshapen (value : Yaml) : Denoted := ⟨value, [none, some .malformed]⟩

/-- A value, or a fault. -/
def ofExcept : Except Fault Yaml → Denoted
  | .ok v => pure v
  | .error fault => refused fault

/-- The faults of two nodes of which one comes after the other. -/
def inOrder : List (Option Fault) → List (Option Fault) → List (Option Fault)
  | [], later => later
  | former, [] => former
  | a :: former, b :: later => a.or b :: inOrder former later

/-- The faults of a collection, from those of its parts. -/
def around (parts : List (List (Option Fault))) : List (Option Fault) :=
  none :: parts.foldr inOrder []

/-- The value, or the fault that counts. -/
def result (d : Denoted) : Except Fault Yaml :=
  match d.faults.findSome? id with
  | some fault => .error fault
  | none => .ok d.value

/-- A value that cannot be a key. -/
def isNoKey : Yaml → Bool
  | .seq _ | .map _ | .set _ => true
  | _ => false

/-- The faults of an entry: a key is looked at before its value. -/
def entryFaults (key value : Denoted) : List (Option Fault) :=
  let kind : List (Option Fault) := if isNoKey key.value then [some .malformed] else []
  inOrder key.faults (inOrder kind value.faults)

def seq (items : List Denoted) : Denoted :=
  ⟨.seq (items.map value), around (items.map faults)⟩

def map (entries : List (Denoted × Denoted)) : Denoted :=
  ⟨.map (entriesOf (entries.map fun (k, v) ↦ (k.value, v.value))),
    around (entries.map fun (k, v) ↦ entryFaults k v)⟩

/-- A set of nodes: the keys of a mapping. -/
def set (entries : List (Denoted × Denoted)) : Denoted :=
  ⟨.set ((entriesOf (entries.map fun (k, v) ↦ (k.value, v.value))).map Prod.fst),
    around (entries.map fun (k, v) ↦ entryFaults k v)⟩

def pairs (entries : List (Denoted × Denoted)) : Denoted :=
  ⟨.seq (entries.map fun (k, v) ↦ .pair k.value v.value),
    around (entries.map fun (k, v) ↦ inOrder k.faults v.faults)⟩

end Denoted

/-- What a node denotes, and what it gives to the nodes around it. -/
structure Meaning where
  denoted : Denoted
  /-- The entries of a mapping, as they are written. -/
  written : Option (List (Denoted × Denoted))
  /-- The entries of a mapping with those that are merged into it; nothing when a merge fails. -/
  entries : Option (List (Denoted × Denoted))
  /-- The entries that the node adds to a mapping into which it is merged. -/
  merged : Option (List (Denoted × Denoted))

namespace Node

/-- The text of a node that is tagged as a scalar: a mapping may have one for its special key. -/
def scalarText? : Node → Option Text
  | .scalar _ text => some text
  | .seq _ _ => none
  | .map _ entries => inEntries entries
where
  /-- The text under the first special key. -/
  inEntries : List (Node × Node) → Option Text
    | [] => none
    | (k, v) :: rest => if k.tag = .value then scalarText? v else inEntries rest

/-- A scalar under a tag. -/
def ofText (tag : Tag) (text : Text) : Denoted :=
  match tag with
  | .seq | .omap | .pairs => .misshapen (.seq [])
  | .map => .misshapen (.map [])
  | .set => .misshapen (.set [])
  | _ => .ofExcept (ofScalar tag text)

/-- A sequence under a tag. -/
def ofItems (tag : Tag) (items : List Meaning) : Denoted :=
  match tag with
  | .seq => .seq (items.map Meaning.denoted)
  | .omap | .pairs =>
    match items.mapM fun m ↦ m.written with
    | none => .misshapen (.seq [])
    | some mappings =>
      if mappings.all (·.length = 1) then .pairs mappings.flatten else .misshapen (.seq [])
  | .map => .misshapen (.map [])
  | .set => .misshapen (.set [])
  | _ => .refused .malformed

/-- A mapping under a tag. -/
def ofEntries (tag : Tag) (text : Option Text) (entries : Option (List (Denoted × Denoted))) :
    Denoted :=
  match tag, entries with
  | .map, some entries => .map entries
  | .map, none => .misshapen (.map [])
  | .set, some entries => .set entries
  | .set, none => .misshapen (.set [])
  | .seq, _ | .omap, _ | .pairs, _ => .misshapen (.seq [])
  | .timestamp, _ => .refused (if text.isSome then .timestampMapping else .malformed)
  | _, _ =>
    match text with
    | some text => .ofExcept (ofScalar tag text)
    | none => .refused .malformed

/-- Every mapping among nodes that are merged together; later ones go first. -/
def mergeAll : List Meaning → Option (List (Denoted × Denoted))
  | [] => some []
  | m :: rest => do return (← mergeAll rest) ++ (← m.entries)

/-- A key with its tag and a value. -/
structure Entry where
  tag : Tag
  key : Denoted
  /-- The key inside a mapping, where the special key of a value is a string. -/
  plainKey : Denoted
  value : Meaning

/-- The entries that are merged into a mapping, and its own. -/
def splitMerges : List Entry → Option (List (Denoted × Denoted) × List (Denoted × Denoted))
  | [] => some ([], [])
  | e :: rest => do
    if e.tag = .merge then
      let former ← e.value.merged
      let (merged, own) ← splitMerges rest
      return (former ++ merged, own)
    else
      let (merged, own) ← splitMerges rest
      return (merged, (e.plainKey, e.value.denoted) :: own)

mutual

/-- The meaning of a node under a tag. -/
def meaning (tag : Tag) : Node → Meaning
  | .scalar _ text => ⟨ofText tag text, none, none, none⟩
  | .seq _ items =>
    let items := itemMeanings items
    ⟨ofItems tag items, none, none, mergeAll items⟩
  | .map own entries =>
    let text := scalarText? (.map own entries)
    let entries := entryMeanings entries
    let flat := (splitMerges entries).map fun (merged, own) ↦ merged ++ own
    ⟨ofEntries tag text flat, some (entries.map fun e ↦ (e.key, e.value.denoted)), flat, flat⟩

def itemMeanings : List Node → List Meaning
  | [] => []
  | n :: rest => meaning n.tag n :: itemMeanings rest

def entryMeanings : List (Node × Node) → List Entry
  | [] => []
  | (k, v) :: rest =>
    let plainTag := if k.tag = .value then .str else k.tag
    ⟨k.tag, (meaning k.tag k).denoted, (meaning plainTag k).denoted, meaning v.tag v⟩ ::
      entryMeanings rest

end

/-- The value that a node denotes. -/
def denote (n : Node) : Except Fault Yaml := (meaning n.tag n).denoted.result

end Node

end RouteCatalog.Yaml
