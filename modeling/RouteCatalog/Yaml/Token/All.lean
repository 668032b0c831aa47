import RouteCatalog.Yaml.Token.Block
import RouteCatalog.Yaml.Token.Mark
import RouteCatalog.Yaml.Token.Place
import RouteCatalog.Yaml.Token.Quoted

/-!
# The tokens of a document

A text is cut from left to right. Indentation becomes tokens: a collection starts where an item or a
key stands further to the right than the collection around it, and ends before the first word that
stands to the left of it.

A key is known to be one only when its colon comes. Until then the place of its first token is kept
as a `Candidate`, one at most for every pair of brackets that is open, and the token that starts the
key is put in at that place. A candidate is given up when its line ends or after `reach` characters;
one that must be a key, because nothing else may stand there, is a fault then.

Cutting never fails: where it cannot go on, a last token `broken` holds the fault. It takes the
place of the tokens that nothing could have looked at before the fault was found, which are those
from the first candidate on.
-/

namespace RouteCatalog.Yaml.Token

/-- A place where a key may have started. -/
structure Candidate where
  before : Nat
  place : Place
  /-- Nothing but a key may stand there. -/
  required : Bool

/-- What cutting has to know of the text before. -/
structure State where
  rest : Text
  place : Place
  /-- The tokens so far, last one first. -/
  tokens : List Token
  /-- The columns of the collections that are open by indentation, innermost first. -/
  columns : List Nat
  keyAllowed : Bool
  /-- The candidate between the innermost brackets that are open. -/
  candidate : Option Candidate
  /-- The candidates around these brackets, innermost first; one entry for each pair. -/
  outer : List (Option Candidate)

namespace State

def start (t : Text) : State := ⟨t, .start, [], [], true, none, []⟩

def inBrackets (s : State) : Bool := !s.outer.isEmpty

/-- The least column of what lies inside the innermost collection. -/
def least (s : State) : Nat :=
  match s.columns with
  | [] => 0
  | column :: _ => column + 1

/-- Goes on at `rest`, which ends the text that is left. -/
def moveTo (s : State) (rest : Text) : State :=
  { s with rest, place := s.place.after (s.rest.take (s.rest.length - rest.length)) }

def push (s : State) (t : Token) : State := { s with tokens := t :: s.tokens }

/-- Adds a token and goes on after it. -/
def emit (s : State) (t : Token) (rest : Text) : State := (s.push t).moveTo rest

/-! ## Candidates -/

/-- How far a colon may be from the start of its key. -/
def reach : Nat := 1024

/-- The candidate can no longer become a key. -/
def isStale (s : State) (c : Candidate) : Bool :=
  c.place.line ≠ s.place.line || s.place.offset - c.place.offset > reach

/-- Gives up the candidates that can no longer become keys. -/
def dropStale (s : State) : Except Fault State :=
  let stale (c : Option Candidate) : Bool := c.any s.isStale
  if (s.candidate :: s.outer).any fun c ↦ stale c && c.any Candidate.required then
    .error .malformed
  else
    let keep (c : Option Candidate) : Option Candidate := c.filter fun c ↦ !s.isStale c
    .ok { s with candidate := keep s.candidate, outer := s.outer.map keep }

/-- Gives up the candidate between the innermost brackets. -/
def dropCandidate (s : State) : Except Fault State :=
  if s.candidate.any Candidate.required then .error .malformed
  else .ok { s with candidate := none }

/-- A key may start here, if one is allowed. -/
def addCandidate (s : State) : Except Fault State :=
  if s.keyAllowed then do
    let s ← s.dropCandidate
    let required := !s.inBrackets && s.columns.head? = some s.place.column
    return { s with candidate := some ⟨s.tokens.length, s.place, required⟩ }
  else .ok s

/-- The number of tokens that no candidate can come before. -/
def settled (s : State) : Nat :=
  (s.candidate :: s.outer).foldl (fun n c ↦ c.elim n fun c ↦ min n c.before) s.tokens.length

/-! ## Indentation -/

/-- Ends the collections that lie to the right of a column. Between brackets none ends. -/
def closeTo (s : State) (column : Nat) : State :=
  if s.inBrackets then s
  else
    let (closed, columns) := s.columns.span fun c ↦ column < c
    { s with tokens := closed.map (fun _ ↦ .blockEnd) ++ s.tokens, columns }

def closeAll (s : State) : State :=
  if s.inBrackets then s
  else { s with tokens := s.columns.map (fun _ ↦ .blockEnd) ++ s.tokens, columns := [] }

/-- Starts a collection at a column, unless one is open there. Its token is put after the first
`before` tokens. -/
def openAt (s : State) (column : Nat) (t : Token) (before : Nat) : State :=
  if s.inBrackets || column < s.least then s
  else
    let later := s.tokens.length - before
    { s with
      tokens := s.tokens.take later ++ t :: s.tokens.drop later
      columns := column :: s.columns }

/-! ## Words -/

/-- The text after blanks, comments and line ends, and whether a line ended. -/
def skipSpace : (inComment : Bool) → Text → Bool × Text
  | _, [] => (false, [])
  | inComment, c :: t =>
    if isBreak c then (true, (skipSpace false t).2)
    else if inComment || c = '#' then skipSpace true t
    else if c = ' ' then skipSpace false t
    else (false, c :: t)

/-- Goes on at the next word. After the end of a line a key may start, except between brackets. A
byte order mark at the start of the text is passed over. -/
def toWord (s : State) : State :=
  let t :=
    match s.rest with
    | [] => []
    | c :: t => if s.place.offset = 0 && c.toNat = 0xFEFF then t else c :: t
  let (endsLine, rest) := skipSpace false t
  { s.moveTo rest with keyAllowed := s.keyAllowed || (endsLine && !s.inBrackets) }

/-- The end of the text. -/
def finish (s : State) : Except Fault State :=
  if s.inBrackets then .error .malformed else s.closeAll.dropCandidate

/-- A directive, or a mark between documents: it ends all collections. -/
def outside (s : State) : Except Fault State :=
  (s.closeAll.dropCandidate).map fun s ↦ { s with keyAllowed := false }

def openBracket (s : State) (t : Token) (rest : Text) : Except Fault State :=
  s.addCandidate.map fun s ↦
    { s with keyAllowed := true, candidate := none, outer := s.candidate :: s.outer }.emit t rest

def closeBracket (s : State) (t : Token) (rest : Text) : Except Fault State := do
  let s ← s.dropCandidate
  match s.outer with
  | [] => .error .malformed
  | candidate :: outer => return { s with keyAllowed := false, candidate, outer }.emit t rest

def comma (s : State) (rest : Text) : Except Fault State :=
  s.dropCandidate.map fun s ↦ { s with keyAllowed := true }.emit .comma rest

/-- A new collection may start here by indentation. -/
def open? (s : State) (t : Token) : Except Fault State :=
  if s.inBrackets then .ok s
  else if s.keyAllowed then .ok (s.openAt s.place.column t s.tokens.length)
  else .error .malformed

def item (s : State) (rest : Text) : Except Fault State := do
  let s ← (← s.open? .blockSeq).dropCandidate
  return { s with keyAllowed := true }.emit .item rest

def key (s : State) (rest : Text) : Except Fault State := do
  let s ← (← s.open? .blockMap).dropCandidate
  return { s with keyAllowed := !s.inBrackets }.emit .key rest

/-- The colon before a value. It makes the candidate a key. -/
def value (s : State) (rest : Text) : Except Fault State :=
  match s.candidate with
  | some c =>
    let later := s.tokens.length - c.before
    let tokens := s.tokens.take later ++ .key :: s.tokens.drop later
    let s := { s with candidate := none, tokens, keyAllowed := false }
    .ok ((s.openAt c.place.column .blockMap c.before).emit .value rest)
  | none => do
    let s ← s.open? .blockMap
    return { s with keyAllowed := !s.inBrackets }.emit .value rest

/-- A word that may start a key and after which none may start. -/
def word (s : State) (found : Except Fault (Token × Text)) : Except Fault State := do
  let s ← s.addCandidate
  let (t, rest) ← found
  return { s with keyAllowed := false }.emit t rest

/-- A plain scalar. A key may start after it if its line has ended. -/
def plain (s : State) : Except Fault State :=
  s.addCandidate.map fun s ↦
    let found := Plain.read s.inBrackets s.least s.rest
    { s with keyAllowed := found.endsLine }.emit (.scalar found.value true) found.rest

def block (s : State) (folded : Bool) (t : Text) : Except Fault State := do
  let s ← s.dropCandidate
  let (text, rest) ← Block.read folded s.least t
  return { s with keyAllowed := true }.emit (.scalar text false) rest

/-- The characters that do not start a plain scalar. -/
def indicators : Text := "-?:,[]\x7b\x7d#&*!|>'\"%@\x60"

/-- A plain scalar starts with the character, which has the given text after it. -/
def startsPlain (s : State) (c : CodePoint) (t : Text) : Bool :=
  !(isSpace c || isBreak c || indicators.contains c) ||
    (!endsWord t && (c = '-' || (!s.inBrackets && (c = '?' || c = ':'))))

/-- The word that starts with a character. -/
def fetch (s : State) (c : CodePoint) (t : Text) : Except Fault State :=
  let scalar (found : Except Fault (Text × Text)) : Except Fault (Token × Text) :=
    found.map fun (text, rest) ↦ (.scalar text false, rest)
  let atMark := s.place.column = 0 && atDocumentMark (c :: t)
  if c = '%' && s.place.column = 0 then do
    let s ← s.outside
    let (found, rest) ← Mark.directive t
    return s.emit found rest
  else if atMark && c = '-' then s.outside.map (·.emit .documentStart (t.drop 2))
  else if atMark && c = '.' then s.outside.map (·.emit .documentEnd (t.drop 2))
  else if c = '[' then s.openBracket .openSeq t
  else if c = '{' then s.openBracket .openMap t
  else if c = ']' then s.closeBracket .closeSeq t
  else if c = '}' then s.closeBracket .closeMap t
  else if c = ',' then s.comma t
  else if c = '-' && endsWord t then s.item t
  else if c = '?' && (s.inBrackets || endsWord t) then s.key t
  else if c = ':' && (s.inBrackets || endsWord t) then s.value t
  else if c = '*' then
    s.word (Mark.required ((Mark.name? t).map fun (name, rest) ↦ (.alias name, rest)))
  else if c = '&' then
    s.word (Mark.required ((Mark.name? t).map fun (name, rest) ↦ (.anchor name, rest)))
  else if c = '!' then s.word (Mark.required (Mark.tag? t))
  else if c = '|' && !s.inBrackets then s.block false t
  else if c = '>' && !s.inBrackets then s.block true t
  else if c = '\'' then s.word (scalar (Quoted.read false t))
  else if c = '"' then s.word (scalar (Quoted.read true t))
  else if s.startsPlain c t then s.plain
  else .error .malformed

/-- The tokens so far and those to come, in order. Each word takes one unit of `fuel`, and each has
at least one character. -/
def run : (fuel : Nat) → State → List Token
  | 0, s => s.tokens.reverse
  | fuel + 1, s =>
    match s.dropStale with
    | .error fault => s.tokens.reverse.take s.settled ++ [.broken fault]
    | .ok s =>
      let stop (fault : Fault) : List Token := s.tokens.reverse.take s.settled ++ [.broken fault]
      match s.toWord.dropStale with
      | .error fault => stop fault
      | .ok s' =>
        match s'.rest with
        | [] =>
          match s'.finish with
          | .error fault => stop fault
          | .ok s' => s'.tokens.reverse
        | c :: t =>
          match (s'.closeTo s'.place.column).fetch c t with
          | .error fault => stop fault
          | .ok s' => run fuel s'

end State

/-- The characters that documents are made of. Line ends are line feeds. -/
def isPrintable (c : CodePoint) : Bool :=
  c = '\t' || c = '\n' || c.between 0x20 0x7E || c.toNat = 0x85 || c.between 0xA0 0xD7FF ||
    c.between 0xE000 0xFFFD || c.between 0x10000 0x10FFFF

def all (t : Text) : List Token :=
  if t.all isPrintable then State.run (t.length + 1) (.start t) else [.broken .malformed]

end RouteCatalog.Yaml.Token
