import RouteCatalog.Yaml.Node.Basic
import RouteCatalog.Yaml.Token.All

/-!
# Reading nodes

The grammar of documents over their tokens. A stream holds one document at most. A node may have a
tag and a name; a name is given once, and a reference stands for the node that was named before it.

A collection may refer to itself. The tree has no place for that, so the inner occurrence is cut off
and left as a collection of the same kind with a null in it.

The functions that call each other take a unit of `fuel` for each call; `document` gives enough of
it for any list of tokens. They also take the `levels` of collections that are left. The true limit
is on calls that are open at once, two for each collection, and so it depends on the caller as well:
`maxDepth` is an approximation of it.
-/

namespace RouteCatalog.Yaml.Node

/-- About the most collections that a node may lie in. -/
def maxDepth : Nat := 490

/-- What is left to read, and what is known from before. -/
structure Source where
  tokens : List Token
  /-- The handles of tags, with what they stand for. -/
  handles : List (Text × Text)
  named : List (Text × Node)

abbrev Reading (α : Type) := StateT Source (Except Fault) α

namespace Reading

/-- The document is malformed. -/
def fail {α : Type} : Reading α := throw .malformed

/-- The next token; nothing at the end. -/
def peek : Reading (Option Token) := do
  match (← get).tokens with
  | [] => return none
  | .broken fault :: _ => throw fault
  | t :: _ => return some t

/-- Passes over the next token. -/
def skip : Reading Unit := modify fun s ↦ { s with tokens := s.tokens.tail }

def isNext (among : List Token) : Reading Bool := return (← peek).any among.contains

/-- Passes over a token if it is next. -/
def skipIf (t : Token) : Reading Bool := do
  if ← isNext [t] then
    skip
    return true
  else return false

/-! ## Properties -/

/-- A name, if one is next. -/
def anchor? : Reading (Option Text) := do
  match ← peek with
  | some (.anchor name) => skip; return some name
  | _ => return none

/-- A tag by its full name, if one is next. Its handle is looked up by `tagName`. -/
def tag? : Reading (Option (Option Text × Text)) := do
  match ← peek with
  | some (.tag handle rest) => skip; return some (handle, rest)
  | _ => return none

def tagName : Option Text × Text → Reading Text
  | (none, name) => return name
  | (some handle, rest) => do
    match (← get).handles.lookup handle with
    | some start => return start ++ rest
    | none => fail

/-- A name and a tag, in either order; both may be missing. A tag that is just an exclamation mark
counts as one. -/
def properties : Reading (Option Text × Option Text) := do
  let before ← anchor?
  let tag ← tag?
  let name ← if before.isNone && tag.isSome then anchor? else pure before
  return (name, ← tag.mapM tagName)

/-- The tag of a node of which `found` is what its form says. -/
def chooseTag (found : Tag) : Option Text → Tag
  | none => found
  | some name => if name = ("!" : Text) then found else .ofName name

/-- The tag of a scalar. A tag that is just an exclamation mark takes a quoted one for a plain one.
-/
def scalarTag (text : Text) (plain : Bool) : Option Text → Tag
  | none => if plain then .ofPlain text else .str
  | some name => chooseTag (.ofPlain text) (some name)

def define (name : Option Text) (n : Node) : Reading Node := do
  match name with
  | some name => modify fun s ↦ { s with named := (name, n) :: s.named }
  | none => pure ()
  return n

def refer (name : Text) : Reading Node := do
  match (← get).named.lookup name with
  | some n => return n
  | none => fail

/-- A name must be new. -/
def checkNew (name : Option Text) : Reading Unit := do
  match name with
  | some name => if ((← get).named.lookup name).isSome then fail
  | none => pure ()

/-! ## Nodes -/

mutual

/-- A node. Collections by indentation may only stand where `inBlock` holds; where `atKey` holds,
the items of a sequence need not be indented. -/
def node : (fuel levels : Nat) → (inBlock atKey : Bool) → Reading Node
  | 0, _, _, _ => fail
  | _ + 1, 0, _, _ => throw .tooDeep
  | fuel + 1, levels + 1, inBlock, atKey => do
    match ← peek with
    | some (.alias name) => skip; refer name
    | _ =>
      let (name, tag) ← properties
      let next ← peek
      checkNew name
      let seqTag := chooseTag .seq tag
      let mapTag := chooseTag .map tag
      let sequence (items : Reading (List Node)) : Reading Node := do
        discard (define name (.seq seqTag [empty]))
        define name (.seq seqTag (← items))
      let mapping (entries : Reading (List (Node × Node))) : Reading Node := do
        discard (define name (.map mapTag [(empty, empty)]))
        define name (.map mapTag (← entries))
      match next with
      | some (.scalar text plain) =>
        skip
        define name (.scalar (scalarTag text plain tag) text)
      | some .openSeq => skip; sequence (flowItems fuel levels true)
      | some .openMap => skip; mapping (flowEntries fuel levels true)
      | some .item => if atKey then sequence (looseItems fuel levels) else noContent name tag
      | some .blockSeq => if inBlock then skip; sequence (items fuel levels) else noContent name tag
      | some .blockMap =>
        if inBlock then skip; mapping (entries fuel levels) else noContent name tag
      | _ => noContent name tag
termination_by structural fuel => fuel

/-- A node without content: it needs a name or a tag. -/
def noContent (name tag : Option Text) : Reading Node :=
  if name.isSome || tag.isSome then define name (.scalar (chooseTag .null tag) []) else fail

/-- A node, unless one of the tokens is next that show that nothing is written. -/
def nodeUnless : (fuel levels : Nat) → (inBlock atKey : Bool) → (ends : List Token) → Reading Node
  | 0, _, _, _, _ => fail
  | fuel + 1, levels, inBlock, atKey, ends => do
    if ← isNext ends then return empty else node fuel levels inBlock atKey
termination_by structural fuel => fuel

/-- The items of a sequence by indentation. -/
def items : (fuel levels : Nat) → Reading (List Node)
  | 0, _ => fail
  | fuel + 1, levels => do
    if ← skipIf .item then
      let n ← nodeUnless fuel levels true false [.item, .blockEnd]
      return n :: (← items fuel levels)
    else if ← skipIf .blockEnd then return []
    else fail
termination_by structural fuel => fuel

/-- The items of a sequence that are not indented. -/
def looseItems : (fuel levels : Nat) → Reading (List Node)
  | 0, _ => fail
  | fuel + 1, levels => do
    if ← skipIf .item then
      let n ← nodeUnless fuel levels true false [.item, .key, .value, .blockEnd]
      return n :: (← looseItems fuel levels)
    else return []
termination_by structural fuel => fuel

/-- A value, if its mark is next. -/
def valueIf : (fuel levels : Nat) → (inBlock : Bool) → (ends : List Token) → Reading Node
  | 0, _, _, _ => fail
  | fuel + 1, levels, inBlock, ends => do
    if ← skipIf .value then nodeUnless fuel levels inBlock inBlock ends else return empty
termination_by structural fuel => fuel

/-- The entries of a mapping by indentation. -/
def entries : (fuel levels : Nat) → Reading (List (Node × Node))
  | 0, _ => fail
  | fuel + 1, levels => do
    if ← skipIf .key then
      let k ← nodeUnless fuel levels true true [.key, .value, .blockEnd]
      let v ← valueIf fuel levels true [.key, .value, .blockEnd]
      return (k, v) :: (← entries fuel levels)
    else if ← skipIf .blockEnd then return []
    else fail
termination_by structural fuel => fuel

/-- The items of a sequence between brackets. An item may be a single entry of a mapping, which is a
collection more. -/
def flowItems : (fuel levels : Nat) → (first : Bool) → Reading (List Node)
  | 0, _, _ => fail
  | fuel + 1, levels, first => do
    if ← skipIf .closeSeq then return []
    if !first then
      if !(← skipIf .comma) then fail
    if ← skipIf .key then
      let k ← nodeUnless fuel (levels - 1) false false [.value, .comma, .closeSeq]
      let v ← valueIf fuel (levels - 1) false [.comma, .closeSeq]
      return .map .map [(k, v)] :: (← flowItems fuel levels false)
    else if ← skipIf .closeSeq then return []
    else
      let n ← node fuel levels false false
      return n :: (← flowItems fuel levels false)
termination_by structural fuel => fuel

/-- The entries of a mapping between braces. A key may stand without a value. -/
def flowEntries : (fuel levels : Nat) → (first : Bool) → Reading (List (Node × Node))
  | 0, _, _ => fail
  | fuel + 1, levels, first => do
    if ← skipIf .closeMap then return []
    if !first then
      if !(← skipIf .comma) then fail
    if ← skipIf .key then
      let k ← nodeUnless fuel levels false false [.value, .comma, .closeMap]
      let v ← valueIf fuel levels false [.comma, .closeMap]
      return (k, v) :: (← flowEntries fuel levels false)
    else if ← skipIf .closeMap then return []
    else
      let k ← node fuel levels false false
      return (k, empty) :: (← flowEntries fuel levels false)
termination_by structural fuel => fuel

end

/-! ## Documents -/

/-- The handles that need no directive. -/
def standardHandles : List (Text × Text) := [("!", "!"), ("!!", Tag.standard)]

/-- The directives at the front of tokens: the handles that they give, and the rest. A version and a
handle are given once; the version is the first. -/
def directives : (versioned : Bool) → (handles : List (Text × Text)) → List Token →
    Except Fault (List (Text × Text) × List Token)
  | versioned, handles, .version major :: rest =>
    if versioned || major ≠ 1 then .error .malformed else directives true handles rest
  | versioned, handles, .handle name start :: rest =>
    if (handles.lookup name).isSome then .error .malformed
    else directives versioned ((name, start) :: handles) rest
  | versioned, handles, .directive :: rest => directives versioned handles rest
  | _, handles, rest => .ok (handles, rest)

/-- A token that stands before a document. -/
def isHead : Token → Bool
  | .version _ | .handle _ _ | .directive | .documentStart => true
  | _ => false

/-- What follows the document: marks of its end, and nothing else. -/
def theEnd (tokens : List Token) : Except Fault Unit :=
  match tokens.dropWhile (· = .documentEnd) with
  | [] => .ok ()
  | rest =>
    match directives false [] rest with
    | .ok (_, .broken fault :: _) => .error fault
    | _ => .error .malformed

end Reading

open Reading in
/-- The document of a stream; nothing when the stream is empty. -/
def document (tokens : List Token) : Except Fault (Option Node) := do
  let fuel := 4 * tokens.length + 4
  match tokens with
  | [] => return none
  | t :: _ =>
    if isHead t then
      let (handles, rest) ← directives false [] tokens
      let source : Source := ⟨rest, handles ++ standardHandles, []⟩
      let content : Reading Node := do
        if !(← skipIf .documentStart) then fail
        match ← peek with
        | none => return empty
        | some t =>
          if isHead t || t = .documentEnd then return empty
          else node fuel (maxDepth + 1) true false
      let (n, source) ← content.run source
      theEnd source.tokens
      return some n
    else
      let (n, source) ← (node fuel (maxDepth + 1) true false).run ⟨tokens, standardHandles, []⟩
      theEnd source.tokens
      return some n

end RouteCatalog.Yaml.Node
