import RouteCatalog.Yaml.Fault

/-!
# YAML tokens

The tokens of a document, and the classes of characters that separate them. A tab separates words
inside a line but never indents; line feeds, next-line controls and the two Unicode separators end
lines, and the first two of them are one and the same in values.
-/

namespace RouteCatalog.Yaml

/-- A token of a document. -/
inductive Token
  /-- A directive that gives the version. -/
  | version (major : Nat)
  | handle (name start : Text)
  /-- A directive without a meaning. -/
  | directive
  | documentStart
  | documentEnd
  /-- The start of a sequence by indentation. -/
  | blockSeq
  /-- The start of a mapping by indentation. -/
  | blockMap
  /-- The end of a collection by indentation. -/
  | blockEnd
  | openSeq
  | closeSeq
  | openMap
  | closeMap
  | comma
  | item
  | key
  | value
  /-- A reference to a node that has a name. -/
  | alias (name : Text)
  /-- The name of the node that follows. -/
  | anchor (name : Text)
  /-- The tag of the node that follows: a handle and the rest, or the whole name. -/
  | tag (handle : Option Text) (rest : Text)
  /-- A scalar, and whether it stood without quotes. -/
  | scalar (text : Text) (plain : Bool)
  /-- The text cannot be cut further. -/
  | broken (fault : Fault)
  deriving DecidableEq

namespace Token

/-- A blank or a tab. -/
def isSpace (c : CodePoint) : Bool := c = ' ' || c = '\t'

def isBreak (c : CodePoint) : Bool :=
  c = '\n' || c.toNat = 0x85 || c.toNat = 0x2028 || c.toNat = 0x2029

/-- The end of a line as a part of a value. -/
def breakOf (c : CodePoint) : CodePoint := if c.toNat = 0x85 then '\n' else c

/-- The text starts with a separator of words, or is at its end. -/
def endsWord : Text → Bool
  | [] => true
  | c :: _ => isSpace c || isBreak c

/-- The text starts with a blank or the end of a line, or is at its end. -/
def endsPart : Text → Bool
  | [] => true
  | c :: _ => c = ' ' || isBreak c

/-- At the start of a line: the text starts with a mark between documents. -/
def atDocumentMark (t : Text) : Bool :=
  (Text.startsWith "---" t || Text.startsWith "..." t) && endsWord (t.drop 3)

/-- A letter or digit of ASCII, a hyphen or an underscore. -/
def isNameChar (c : CodePoint) : Bool :=
  c.isAsciiLetter || c.isAsciiDigit || c = '-' || c = '_'

/-- The text after the rest of its line, in which only a comment may stand. -/
def dropLine? (t : Text) : Option Text :=
  let t := t.dropWhile (· = CodePoint.ofChar ' ')
  let t := if Text.startsWith "#" t then t.dropWhile fun c ↦ !isBreak c else t
  match t with
  | [] => some []
  | c :: t => if isBreak c then some t else none

end Token

end RouteCatalog.Yaml
