import RouteCatalog.Json.Token
import RouteCatalog.Text.Quoted

/-!
# Reading JSON

The reader goes through the tokens once and keeps the containers that are still open on a stack, so
it is structural on the tokens whatever the nesting. `State.step` says what one token does; the
reader reports the first fault in the order of the text, with its offset.

Nesting is limited. A value inside more than `maxDepth` containers is refused with a fault of its
own, whatever follows it: unlike text that is not JSON, it is never taken for plain text. The true
limit is on calls that are open at once, so it also depends on the caller, and a little more nesting
than this may still be read; much more is not.
-/

namespace RouteCatalog.Json

/-- About the most containers that may be open at once. -/
def maxDepth : Nat := 950

/-- Why a text is not read. -/
inductive Fault
  /-- The text is not JSON, for a cause at an offset. -/
  | malformed (cause : Cause) (position : Nat)
  | tooManyDigits (digits : Nat)
  /-- A container of the given kind is nested too deeply. -/
  | tooDeep (container : Container)
  deriving DecidableEq

/-- An open container: what it holds so far, last item first. -/
inductive Frame
  | array (items : List Json)
  /-- An open object whose member `key` is being read. -/
  | object (members : List (Text × Json)) (key : Text)

/-- What the reader expects next. -/
inductive State
  | value
  | firstItem
  | firstKey
  | key (members : List (Text × Json))
  /-- The colon after a key of an object that has the given members. -/
  | colon (members : List (Text × Json)) (key : Text)
  /-- A comma or the end of the innermost container, after a complete value. -/
  | after (value : Json)

/-- One token: what is expected after it, and the open containers. -/
def State.step (stack : List Frame) (position : Nat) :
    State → Token → Except Fault (State × List Frame)
  | .value, t => valueStep stack position t
  | .firstItem, .closing .array => .ok (.after (.arr []), stack)
  | .firstItem, t => valueStep (.array [] :: stack) position t
  | .firstKey, .closing .object => .ok (.after (.obj []), stack)
  | .firstKey, t => keyStep [] t
  | .key members, t => keyStep members t
  | .colon members name, .colon => .ok (.value, .object members name :: stack)
  | .colon _ _, _ => .error (.malformed .expectingColon position)
  | .after v, t =>
    match stack, t with
    | [], _ => .error (.malformed .extraData position)
    | .array items :: rest, .comma => .ok (.value, .array (v :: items) :: rest)
    | .array items :: rest, .closing .array => .ok (.after (.arr (v :: items).reverse), rest)
    | .object members name :: rest, .comma => .ok (.key ((name, v) :: members), rest)
    | .object members name :: rest, .closing .object =>
      .ok (.after (ofMembers ((name, v) :: members).reverse), rest)
    | _, _ => .error (.malformed .expectingComma position)
where
  /-- A token where a value is expected. -/
  valueStep (stack : List Frame) (position : Nat) : Token → Except Fault (State × List Frame)
    | .opening c =>
      if stack.length ≥ maxDepth then .error (.tooDeep c)
      else match c with
        | .array => .ok (.firstItem, stack)
        | .object => .ok (.firstKey, stack)
    | .text s => .ok (.after (.str s), stack)
    | .scalar v => .ok (.after v, stack)
    | .longNumber digits => .error (.tooManyDigits digits)
    | .brokenText cause at' => .error (.malformed cause at')
    | _ => .error (.malformed .expectingValue position)
  /-- A token where a key is expected. -/
  keyStep (members : List (Text × Json)) : Token → Except Fault (State × List Frame)
    | .text name => .ok (.colon members name, stack)
    | .brokenText cause at' => .error (.malformed cause at')
    | _ => .error (.malformed .expectingKey position)

/-- The text ends: the value when one is complete and no container is open. -/
def State.finish (stack : List Frame) (length : Nat) : State → Except Fault Json
  | .after v => if stack.isEmpty then .ok v else .error (.malformed .expectingComma length)
  | .value | .firstItem => .error (.malformed .expectingValue length)
  | .firstKey | .key _ => .error (.malformed .expectingKey length)
  | .colon _ _ => .error (.malformed .expectingColon length)

/-- Reads the tokens of a text of the given length. -/
def ofTokens (length : Nat) : State → List Frame → List (Nat × Token) → Except Fault Json
  | state, stack, [] => state.finish stack length
  | state, stack, (position, token) :: rest =>
    match state.step stack position token with
    | .error fault => .error fault
    | .ok (state, stack) => ofTokens length state stack rest

def read (t : Text) : Except Fault Json :=
  if t.head? = some (.ofNat 0xFEFF) then .error (.malformed .byteOrderMark 0)
  else ofTokens t.length .value [] (Token.all t)

def Cause.message : Cause → Text
  | .expectingValue => "Expecting value"
  | .expectingKey => "Expecting property name enclosed in double quotes"
  | .expectingColon => "Expecting ':' delimiter"
  | .expectingComma => "Expecting ',' delimiter"
  | .extraData => "Extra data"
  | .unterminatedText => "Unterminated string starting at"
  | .controlCharacter => "Invalid control character at"
  | .badEscape => "Invalid \\escape"
  | .badUnicodeEscape => "Invalid \\uXXXX escape"
  | .byteOrderMark => "Unexpected UTF-8 BOM (decode using utf-8-sig)"

def Container.name : Container → Text
  | .array => "array"
  | .object => "object"

def Container.tooDeepMessage (c : Container) : Text :=
  "maximum recursion depth exceeded while decoding a JSON " ++ c.name ++ " from a unicode string"

/-- The wording of a fault in the text `source`: the place is given by line and column, both counted
from one, and by offset. -/
def Fault.message (source : Text) : Fault → Text
  | .malformed cause position =>
    let before := source.take position
    let line := before.count (CodePoint.ofChar '\n') + 1
    let column := (before.reverse.takeWhile (· ≠ CodePoint.ofChar '\n')).length + 1
    cause.message ++ ": line " ++ Text.ofNat line ++ " column " ++ Text.ofNat column ++
      " (char " ++ Text.ofNat position ++ ")"
  | .tooManyDigits digits => (Numeral.Fault.tooManyDigits digits).message
  | .tooDeep c => c.tooDeepMessage

end RouteCatalog.Json
