import RouteCatalog.Endpoint
import RouteCatalog.Json.Reader
import RouteCatalog.Text.Pattern
import RouteCatalog.Text.Word

/-!
# What a documentation comment says

Inside a documentation comment every line may start with an asterisk, which is decoration. Lines
that do not start with `@` describe the endpoint. Three annotations say more:

* `@param {TYPE} NAME` names a parameter, which is optional when `TYPE` has an equals sign;
* `@requestBody BODY` gives the schema of the request body;
* `@responseExample STATUS BODY` gives a response.

A body reaches to the next `@`, to the end of the comment or to the end of the text. It is JSON or,
failing that, plain text. Only the first request body and the first response count. JSON that nests
too deeply is the one fault: it is reported and not taken for plain text.
-/

namespace RouteCatalog

/-- What a documentation comment says about an endpoint. -/
structure Documentation where
  description : Option Text := none
  parameters : List Parameter := []
  /-- The schema of the request body; null when there is none. -/
  requestBody : Json := .null
  response : Option Response := none

namespace DocComment

/-! ## Decoration -/

/-- A line without the asterisk that decorates it and one blank after that. -/
def undecorated (line : Text) : Text :=
  match line.trimLeft with
  | [] => line
  | c :: rest =>
    if c = '*' then
      match rest with
      | [] => []
      | b :: more => if b.isBlank then more else rest
    else line

def withoutDelimiters (block : Text) : Text :=
  let t := block.trim
  let t := (Text.dropLiteral? "/**" t).getD t
  if Text.startsWith "/*" t.reverse then t.take (t.length - 2) else t

/-- The body of an annotation without decoration, and without blanks at the ends of its lines and
around it. -/
def undecoratedBody (body : Text) : Text :=
  (Text.join "\n" (body.lines.map fun line ↦ (undecorated line).trimRight)).trim

/-! ## Description -/

def descriptionLines (block : Text) : List Text :=
  ((withoutDelimiters block).lines.map fun line ↦ (undecorated line).trim).filter fun line ↦
    !line.isEmpty && !Text.startsWith "@" line

/-- The description: the describing lines joined by blanks. -/
def description (block : Text) : Option Text :=
  match (Text.join " " (descriptionLines block)).trim with
  | [] => none
  | t => some t

/-! ## Parameters -/

/-- A character of a parameter's name. -/
def isNameChar (c : CodePoint) : Bool := c.isWord || c = '$' || c = '.'

/-- The annotation of a parameter: the text of its type and its name, which may be empty. -/
def parameterTag : Pattern (Text × Text) := fun _ t ↦ do
  let t ← Text.dropLiteral? "@param" t
  let t ← Text.dropBlanks? t
  let t ← Text.dropLiteral? "\x7b" t
  let type : Text := t.takeWhile (· ≠ CodePoint.ofChar '}')
  if type.isEmpty then none
  else
    let t ← Text.dropLiteral? "\x7d" (t.dropWhile (· ≠ CodePoint.ofChar '}'))
    let t ← Text.dropBlanks? t
    return ((type, t.takeWhile isNameChar), t.dropWhile isNameChar)

/-- The parameter of an annotation; one without a name is no parameter. -/
def parameter? : Text × Text → Option Parameter
  | (type, name) =>
    if name.isEmpty then none
    else some ⟨name, .ofTypeText type, !type.contains (CodePoint.ofChar '=')⟩

/-- The parameters of a block, in order. -/
def parameters (block : Text) : List Parameter :=
  (parameterTag.occurrences block).filterMap fun o ↦ parameter? o.value

/-! ## Bodies -/

/-- The body at the front of a text: up to the next `@`, the end of a comment, or the end. -/
def body : Text → Text
  | [] => []
  | c :: t =>
    if c = '@' || c = '*' && t.head? = some (CodePoint.ofChar '/') then [] else c :: body t

/-- The annotation of a request body: its body. -/
def requestBodyTag : Pattern Text := fun _ t ↦ do
  let t ← Text.dropLiteral? "@requestBody" t
  let t ← Text.dropBlanks? t
  return (body t, t.drop (body t).length)

/-- The value of three decimal digits of any script at the front of a text, and the rest. -/
def status? : Text → Option (Nat × Text)
  | a :: b :: c :: t => do
    let a ← a.digit?
    let b ← b.digit?
    let c ← c.digit?
    return (100 * a + 10 * b + c, t)
  | _ => none

/-- The annotation of a response: its status and its body. -/
def responseTag : Pattern (Nat × Text) := fun _ t ↦ do
  let t ← Text.dropLiteral? "@responseExample" t
  let t ← Text.dropBlanks? t
  let (status, t) ← status? t
  let t ← Text.dropBlanks? t
  return ((status, body t), t.drop (body t).length)

/-- The value of a body: its JSON value, or `plain` of the text when it is not JSON. -/
def bodyValue (plain : Text → Json) (body : Text) : Except Json.Container Json :=
  let text := undecoratedBody body
  match Json.read text with
  | .ok value => .ok value
  | .error (.tooDeep c) => .error c
  | .error _ => .ok (plain text)

/-- The schema of the request body. Plain text becomes the member `schema` of an object. -/
def requestBody (block : Text) : Except Json.Container Json :=
  match requestBodyTag.first? none block with
  | none => .ok .null
  | some (body, _) => bodyValue (fun text ↦ .obj [("schema", .str text)]) body

/-- The response. Plain text is an example as it stands. -/
def response (block : Text) : Except Json.Container (Option Response) :=
  match responseTag.first? none block with
  | none => .ok none
  | some ((status, body), _) => (bodyValue .str body).map fun value ↦ some ⟨status, value⟩

/-! ## The whole block -/

/-- What a block says; an empty block says nothing. The request body is read before the
response. -/
def documentation (block : Text) : Except Json.Container Documentation :=
  if block.isEmpty then .ok {}
  else do
    let requestBody ← requestBody block
    let response ← response block
    return ⟨description block, parameters block, requestBody, response⟩

end DocComment

end RouteCatalog
