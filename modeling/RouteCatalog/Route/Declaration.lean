import RouteCatalog.Endpoint
import RouteCatalog.Text.Pattern
import RouteCatalog.Text.Word

/-!
# Route declarations

Three lexical forms declare a route:

* a *fluent call*, `app.get("/users", …)`;
* a *registration*, `fastify.route({ method: 'GET', url: '/users', … })`;
* a *decorator*, `@Get(':id')`, whose path may be missing.

Any of the three quotation marks may open a quoted text and any may close it. Fluent calls and
registrations ignore letter case, decorators do not.

A registration has gaps of arbitrary text between its parts. It is found by one forward pass: after
the opening the first method field with a supported verb, after that the first field with a
nonempty address, after that the first closing. If one of them is missing there is no registration
at this opening, nor at any later one.
-/

namespace RouteCatalog

/-- The parts of a route declaration as they are written; a missing path is empty. -/
structure Declaration where
  verb : Text
  path : Text
  deriving DecidableEq

namespace Declaration

/-! ## Pieces -/

/-- A quotation mark. -/
def isQuote (c : CodePoint) : Bool := c = '`' || c = '"' || c = '\''

/-- No word character stands before the text. -/
def atBoundary (before : Option CodePoint) : Bool := !before.any CodePoint.isWord

/-- What follows `word`, a word in small letters of ASCII, at the front of a text, letter case
ignored. -/
def dropWord? : (word : Text) → Text → Option Text
  | [], t => some t
  | _ :: _, [] => none
  | a :: word, c :: t => if CodePoint.sameLetter a c then dropWord? word t else none

/-- What follows one quotation mark. -/
def dropQuote? : Text → Option Text
  | [] => none
  | c :: t => if isQuote c then some t else none

/-- A quoted text, and what follows it. -/
def quoted? (t : Text) : Option (Text × Text) := do
  let t ← dropQuote? t
  let rest ← dropQuote? (t.dropWhile (!isQuote ·))
  return (t.takeWhile (!isQuote ·), rest)

/-- A quoted text that is not empty, and what follows it. -/
def quotedNonempty? (t : Text) : Option (Text × Text) := do
  let (inside, rest) ← quoted? t
  if inside.isEmpty then none else some (inside, rest)

/-- What follows a literal that blanks may precede. -/
def dropSpaced? (literal t : Text) : Option Text := Text.dropLiteral? literal t.trimLeft

def verbWords : List Text := ["get", "post", "put", "delete"]

/-- The first of the words at the front of a text, letter case ignored, as it is written there, and
what follows it. -/
def anyWord? (words : List Text) (t : Text) : Option (Text × Text) :=
  words.findSome? fun word ↦ (dropWord? word t).map fun rest ↦ (t.take word.length, rest)

/-! ## Fluent calls -/

/-- A verb as a function name, and a quoted path as the first argument. -/
def fluentCall : Pattern Declaration := fun before t ↦ do
  if !atBoundary before then none
  let (verb, t) ← anyWord? verbWords t
  let t ← dropSpaced? "(" t
  let (path, rest) ← quotedNonempty? t.trimLeft
  return (⟨verb, path⟩, rest)

/-! ## Registrations -/

/-- The opening of a registration: the function name and the start of its options. -/
def registrationOpening : Pattern Unit := fun before t ↦ do
  if !atBoundary before then none
  let t ← dropWord? "route" t
  let t ← dropSpaced? "(" t
  let rest ← dropSpaced? "\x7b" t
  return ((), rest)

def dropFieldName? (name t : Text) : Option Text := do
  let t ← dropWord? name t
  dropSpaced? ":" t

/-- The method field with a supported verb: the verb as it is written. -/
def methodField : Pattern Text := fun _ t ↦ do
  let t ← dropFieldName? "method" t
  let t ← dropQuote? t.trimLeft
  let (verb, t) ← anyWord? verbWords t
  let rest ← dropQuote? t
  return (verb, rest)

/-- The address field: the path. -/
def urlField : Pattern Text := fun _ t ↦ do
  let t ← dropFieldName? "url" t
  quotedNonempty? t.trimLeft

def registrationClosing : Pattern Unit := fun _ t ↦ do
  let t ← Text.dropLiteral? "\x7d" t
  let rest ← dropSpaced? ")" t
  return ((), rest)

def registration : Pattern Declaration := fun before t ↦ do
  let ((), t) ← registrationOpening before t
  let (verb, t) ← methodField.first? none t
  let (path, t) ← urlField.first? none t
  let ((), rest) ← registrationClosing.first? none t
  return (⟨verb, path⟩, rest)

/-! ## Decorators -/

def decoratorNames : List Text := ["Get", "Post", "Put", "Delete"]

/-- The quoted argument of a decorator, if there is one; otherwise the empty text. -/
def argument (t : Text) : Text × Text := (quoted? t).getD ([], t)

/-- A decorator with at most one quoted argument. -/
def decorator : Pattern Declaration := fun _ t ↦ do
  let t ← Text.dropLiteral? "@" t
  let (verb, t) ← decoratorNames.findSome? fun name ↦
    (Text.dropLiteral? name t).map fun rest ↦ (name, rest)
  let t ← dropSpaced? "(" t
  let (path, t) := argument t.trimLeft
  let rest ← dropSpaced? ")" t
  return (⟨verb, path⟩, rest)

/-! ## Markers -/

/-- `name` as a whole word. -/
def wholeWord (name : Text) : Pattern Unit := fun before t ↦ do
  if !atBoundary before then none
  let rest ← Text.dropLiteral? name t
  if rest.head?.any CodePoint.isWord then none else some ((), rest)

/-- The decorator of a controller class. -/
def controllerMarker : Pattern Unit := fun _ t ↦ do
  let rest ← Text.dropLiteral? "@Controller" t
  if rest.head?.any CodePoint.isWord then none else some ((), rest)

end Declaration

end RouteCatalog
