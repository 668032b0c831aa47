import RouteCatalog.DocComment.Tag
import RouteCatalog.DocComment.Block
import RouteCatalog.Files.Path
import RouteCatalog.Route.Declaration

/-!
# Dialects

A dialect is one framework's way of declaring routes. It decides whether it applies to a file, and
it extracts the endpoints of a file; either may fail. Most dialects come from a pattern: each
declaration that the pattern recognises is an endpoint, documented by the last documentation comment
before it, unless its verb is not supported or it has no path.

Three dialects are built in. Other ones can be made from a pattern, or from two functions.
-/

namespace RouteCatalog

namespace Dialect

/-- Why a dialect fails on a file. -/
inductive Failure
  /-- JSON in a documentation comment nests too deeply. -/
  | tooDeep (container : Json.Container)
  | other (message : Text)
  deriving DecidableEq

def Failure.message : Failure → Text
  | .tooDeep c => c.tooDeepMessage
  | .other message => message

end Dialect

/-- A way of declaring routes. -/
structure Dialect where
  /-- Its name, which its endpoints carry. -/
  name : Text
  /-- Whether it applies to a file with some content. -/
  applies : (file content : Text) → Except Dialect.Failure Bool
  /-- The endpoints in a file with some content. -/
  extract : (file content : Text) → Except Dialect.Failure (List Endpoint)
  /-- How many request bodies the extraction keeps as plain text before it ends. -/
  plainBodies : (content : Text) → Nat := fun _ ↦ 0

namespace Dialect

/-! ## Dialects of a pattern -/

/-- The number of the line on which an offset lies, the first line being one. -/
def lineAt (content : Text) (offset : Nat) : Nat :=
  (content.take offset).count (CodePoint.ofChar '\n') + 1

/-- The verb and the path of a declaration, if the verb is supported and there is a path. A
declaration without a path has the default one. -/
def target? (defaultPath : Text) (d : Declaration) : Option (Verb × Text) := do
  let verb ← Verb.parse? d.verb
  let path := if d.path.isEmpty then defaultPath else d.path
  if path.isEmpty then none else some (verb, path)

/-- The documentation of a declaration that starts at an offset. -/
def documentationAt (content : Text) (offset : Nat) : Except Json.Container Documentation :=
  match DocComment.lastBefore content offset with
  | none => .ok {}
  | some block => DocComment.documentation block

/-- The endpoint of a declaration; nothing when the declaration is rejected. -/
def endpoint? (name defaultPath file content : Text) (o : Occurrence Declaration) :
    Except Json.Container (Option Endpoint) :=
  match target? defaultPath o.value with
  | none => .ok none
  | some (verb, path) =>
    (documentationAt content o.start).map fun doc ↦
      some {
        verb, path, framework := name, sourceFile := file
        description := doc.description
        parameters := doc.parameters
        requestBody := doc.requestBody
        response := doc.response
        line := some (lineAt content o.start) }

/-- The endpoints of all declarations of a pattern. -/
def extractWith (name : Text) (pattern : Pattern Declaration) (defaultPath file content : Text) :
    Except Failure (List Endpoint) :=
  match (pattern.occurrences content).mapM (endpoint? name defaultPath file content) with
  | .ok endpoints => .ok (endpoints.filterMap id)
  | .error c => .error (.tooDeep c)

/-- The request body that a block has is plain text. -/
def hasPlainBody (block : Text) : Bool :=
  match DocComment.requestBodyTag.first? none block with
  | none => false
  | some (body, _) =>
    match Json.read (DocComment.undecoratedBody body) with
    | .error (.malformed _ _) | .error (.tooManyDigits _) => true
    | _ => false

/-- The blocks that are read until the first that fails, and that one too. -/
def blocksRead : List Text → List Text
  | [] => []
  | block :: rest =>
    match DocComment.documentation block with
    | .ok _ => block :: blocksRead rest
    | .error _ => [block]

/-- How many request bodies are kept as plain text. -/
def plainBodiesWith (pattern : Pattern Declaration) (defaultPath content : Text) : Nat :=
  let blocks := (pattern.occurrences content).filterMap fun o ↦
    (target? defaultPath o.value).bind fun _ ↦ DocComment.lastBefore content o.start
  (blocksRead blocks).countP hasPlainBody

def ofPattern (name : Text) (pattern : Pattern Declaration) (defaultPath : Text)
    (applies : (file content : Text) → Bool) : Dialect where
  name
  applies file content := .ok (applies file content)
  extract file content := extractWith name pattern defaultPath file content
  plainBodies content := plainBodiesWith pattern defaultPath content

/-! ## The built-in dialects -/

/-- Fluent calls in a file that mentions the framework or its router. -/
def express : Dialect :=
  ofPattern "express" Declaration.fluentCall [] fun _ content ↦
    ((Declaration.wholeWord "express").occursIn content ||
      (Declaration.wholeWord "Router").occursIn content) &&
    Declaration.fluentCall.occursIn content

/-- Registrations in a file that mentions the framework. -/
def fastify : Dialect :=
  ofPattern "fastify" Declaration.registration [] fun _ content ↦
    (Declaration.wholeWord "fastify").occursIn content &&
      Declaration.registration.occursIn content

/-- Decorators in a TypeScript file with a controller class; a decorator without a path declares the
root. -/
def nestjs : Dialect :=
  ofPattern "nestjs" Declaration.decorator "/" fun file content ↦
    (Path.ofText file).suffix = ".ts" && Declaration.controllerMarker.occursIn content

/-- The built-in dialects, in the order in which they look at a file. -/
def builtIn : List Dialect := [express, fastify, nestjs]

end Dialect

end RouteCatalog
