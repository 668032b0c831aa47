import RouteCatalog.Files.Path
import RouteCatalog.Text.Quoted
import RouteCatalog.Text.Utf8

/-!
# Names and faults of files

A name reaches the system as bytes. The surrogates from `U+DC80` to `U+DCFF` stand for the bytes of
a name that is not UTF-8; any other surrogate has no encoding, and the null character ends a name
early. A path with one of them never gets to the system: such a fault is not one of the system's
own, and what handles those does not handle it.

Faults say what went wrong at which path; their wording is that of the operating system.
-/

namespace RouteCatalog.Files

/-! ## Names -/

/-- The code point stands for a byte that is no character. -/
def standsForByte (c : CodePoint) : Bool := c.between 0xDC80 0xDCFF

/-- The code point has an encoding in a name. -/
def isEncodable (c : CodePoint) : Bool := !c.isSurrogate || standsForByte c

/-- The number of bytes of a name. -/
def byteLength (name : Text) : Nat :=
  (name.map fun c ↦ if standsForByte c then 1 else (Utf8.encodeChar c).length).foldr (· + ·) 0

/-! ## Faults -/

/-- What can go wrong with a path. -/
inductive Cause
  | noEntry
  /-- The path or its target is in use as it is. -/
  | busy
  | alreadyExists
  /-- A name leads through a file. -/
  | notDirectory
  | isDirectory
  | nameTooLong
  | nullCharacter
  | unencodable
  deriving DecidableEq

/-- A failed operation on files. -/
structure Fault where
  cause : Cause
  path : Text
  /-- The second path, for an operation on two. -/
  target : Option Text := none
  deriving DecidableEq

namespace Cause

/-- The number by which the operating system knows a cause, if it does. -/
def number : Cause → Nat
  | .noEntry => 2
  | .busy => 16
  | .alreadyExists => 17
  | .notDirectory => 20
  | .isDirectory => 21
  | .nameTooLong => 36
  | .nullCharacter | .unencodable => 0

def wording : Cause → Text
  | .noEntry => "No such file or directory"
  | .busy => "Device or resource busy"
  | .alreadyExists => "File exists"
  | .notDirectory => "Not a directory"
  | .isDirectory => "Is a directory"
  | .nameTooLong => "File name too long"
  | .nullCharacter => "embedded null byte"
  | .unencodable => "surrogates not allowed"

end Cause

/-- Where a text cannot be encoded: at its first code point without an encoding, and on to the end
of the row of surrogates that this one belongs to. -/
def unencodablePlace (t : Text) : Text :=
  let start := (t.takeWhile isEncodable).length
  match (t.drop start).takeWhile CodePoint.isSurrogate with
  | [c] => "character '\\u" ++ Text.ofHex 4 c.toNat ++ "' in position " ++ Text.ofNat start
  | row =>
    "characters in position " ++ Text.ofNat start ++ "-" ++ Text.ofNat (start + row.length - 1)

namespace Fault

def fromSystem (f : Fault) : Bool := f.cause.number ≠ 0

def message (f : Fault) : Text :=
  match f.cause with
  | .nullCharacter => f.cause.wording
  | .unencodable =>
    "'utf-8' codec can't encode " ++ unencodablePlace f.path ++ ": " ++ f.cause.wording
  | cause =>
    "[Errno " ++ Text.ofNat cause.number ++ "] " ++ cause.wording ++ ": " ++ f.path.quoted ++
      match f.target with
      | some t => " -> " ++ t.quoted
      | none => []

end Fault

/-! ## Texts that can be paths -/

/-- Why the system is not given a text, if it is not. -/
def refusal? (t : Text) : Option Cause :=
  if !t.all isEncodable then some .unencodable
  else if t.contains (.ofNat 0) then some .nullCharacter
  else none

/-- Makes sure that a path can be looked at name by name. -/
def check (t : Text) : Except Fault Unit :=
  match (Path.names t).findSome? refusal? with
  | some cause => .error ⟨cause, (Path.ofText t).toText, none⟩
  | none => .ok ()

end RouteCatalog.Files
