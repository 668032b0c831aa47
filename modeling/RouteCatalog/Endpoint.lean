import RouteCatalog.Json.Value
import RouteCatalog.Text.Blank
import RouteCatalog.Text.Case
import RouteCatalog.Text.Split

/-!
# Endpoints

An endpoint is one route declaration found in a source file: its verb and path, what its
documentation comment says about it, and where it stands. `Endpoint.toJson` fixes the persisted
shape and the order of its members. A request body and a response are always present and null when
there is none; a description and a line are left out instead.
-/

namespace RouteCatalog

/-- The supported HTTP verbs. -/
inductive Verb
  | get
  | post
  | put
  | delete
  deriving DecidableEq

namespace Verb

def name : Verb → Text
  | .get => "GET"
  | .post => "POST"
  | .put => "PUT"
  | .delete => "DELETE"

def all : List Verb := [.get, .post, .put, .delete]

def ofName? (t : Text) : Option Verb := all.find? fun v ↦ v.name = t

/-- The verb that a text names regardless of case and of blanks around it. -/
def parse? (t : Text) : Option Verb := ofName? t.trim.upper

theorem ofName?_name (v : Verb) : ofName? v.name = some v := by cases v <;> rfl

theorem parse?_name (v : Verb) : parse? v.name = some v := by cases v <;> rfl

end Verb

namespace Parameter

/-- The coarse kind of a parameter. -/
inductive Kind
  | string
  | number
  | boolean
  | object
  | array
  | unknown
  deriving DecidableEq

namespace Kind

def name : Kind → Text
  | .string => "string"
  | .number => "number"
  | .boolean => "boolean"
  | .object => "object"
  | .array => "array"
  | .unknown => "unknown"

def all : List Kind := [.string, .number, .boolean, .object, .array, .unknown]

def ofName? (t : Text) : Option Kind := all.find? fun k ↦ k.name = t

/-- The words that give a kind away, in the order in which they are looked for. -/
def keywords : List (Text × Kind) :=
  [("string", .string), ("number", .number), ("int", .number), ("float", .number),
    ("boolean", .boolean), ("bool", .boolean), ("array", .array), ("object", .object)]

/-- The kind that a type annotation suggests: that of the first keyword inside it. -/
def ofTypeText (type : Text) : Kind :=
  let t := type.lower
  match keywords.find? fun (word, _) ↦ Text.hasInside word t with
  | some (_, kind) => kind
  | none => .unknown

theorem ofName?_name (k : Kind) : ofName? k.name = some k := by cases k <;> rfl

end Kind

end Parameter

/-- A documented parameter. -/
structure Parameter where
  name : Text
  kind : Parameter.Kind := .unknown
  /-- Whether it has to be given. -/
  required : Bool := true
  deriving DecidableEq

/-- The persisted shape of a parameter. -/
def Parameter.toJson (p : Parameter) : Json :=
  .obj [("name", .str p.name), ("type", .str p.kind.name), ("required", .bool p.required)]

/-- A documented response: a status with an example of the body. -/
structure Response where
  status : Int
  body : Json

/-- The persisted shape of a response. -/
def Response.toJson (r : Response) : Json :=
  .obj [("status", .int r.status), ("example", r.body)]

/-- A route declaration with its documentation. -/
structure Endpoint where
  verb : Verb
  path : Text
  /-- The name of the dialect that recognised the declaration. -/
  framework : Text
  sourceFile : Text
  description : Option Text := none
  /-- The parameters, in the order of the documentation. -/
  parameters : List Parameter := []
  /-- The schema of the request body; null when there is none. -/
  requestBody : Json := .null
  response : Option Response := none
  line : Option Int := none

namespace Endpoint

/-- The key of an endpoint: its verb and path. Different endpoints may share one. -/
def key (e : Endpoint) : Text := e.verb.name ++ " " ++ e.path

def descriptionMembers : Option Text → List (Text × Json)
  | some d => [("description", .str d)]
  | none => []

def lineMembers : Option Int → List (Text × Json)
  | some n => [("line", .int n)]
  | none => []

/-- The persisted shape of a response; null when there is none. -/
def responseJson : Option Response → Json
  | some r => r.toJson
  | none => .null

/-- The members of the persisted shape, without the line. -/
def membersWithoutLine (e : Endpoint) : List (Text × Json) :=
  let always : List (Text × Json) :=
    [("parameters", .arr (e.parameters.map Parameter.toJson)),
      ("requestBodySchema", e.requestBody), ("response", responseJson e.response),
      ("framework", .str e.framework), ("sourceFile", .str e.sourceFile)]
  ("method", .str e.verb.name) :: ("path", .str e.path) ::
    (descriptionMembers e.description ++ always)

/-- The members of the persisted shape. -/
def members (e : Endpoint) : List (Text × Json) := e.membersWithoutLine ++ lineMembers e.line

/-- The persisted shape of an endpoint. -/
def toJson (e : Endpoint) : Json := .obj e.members

end Endpoint

end RouteCatalog
