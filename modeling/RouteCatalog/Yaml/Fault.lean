import RouteCatalog.Text.Quoted
import RouteCatalog.Yaml.Timestamp

/-!
# Why a document is not read

Most documents that cannot be read are malformed, and no more is said of them. A few faults lie in
the values: a scalar carries a tag that it cannot have, or names a day or a character that does not
exist. These keep their causes. Nesting that is too deep is a fault of its own.
-/

namespace RouteCatalog.Yaml

/-- Why a document is not read. -/
inductive Fault
  /-- It has no meaning as a document. -/
  | malformed
  /-- A node lies inside too many collections. -/
  | tooDeep
  /-- An escape names a character that does not exist. -/
  | noCharacter (number : Nat)
  /-- A scalar is tagged as an integer and is none. -/
  | integer (fault : Numeral.Fault)
  /-- A scalar is tagged as a floating-point number and is none. -/
  | float (text : Text)
  /-- A scalar is tagged as a number and has no digits. -/
  | emptyNumber
  /-- A place in base sixty is worth more than floating-point numbers can hold. -/
  | hugePlace
  /-- A scalar is tagged as a truth value and is none. -/
  | truthValue (word : Text)
  /-- A scalar is tagged as a timestamp and does not have the form. -/
  | notTimestamp
  | timestampMapping
  /-- The numbers of a timestamp name nothing. -/
  | timestamp (fault : Timestamp.Fault)
  deriving DecidableEq

def Fault.message : Fault → Text
  | .malformed => "malformed document"
  | .tooDeep => "maximum recursion depth exceeded"
  | .noCharacter number =>
    if number < Nat.pow 2 31 then "chr() arg not in range(0x110000)"
    else "Python int too large to convert to C int"
  | .integer fault => fault.message
  | .float text => "could not convert string to float: " ++ text.quoted
  | .emptyNumber => "string index out of range"
  | .hugePlace => "int too large to convert to float"
  | .truthValue word => word.quoted
  | .notTimestamp => "'NoneType' object has no attribute 'groupdict'"
  | .timestampMapping => "expected string or bytes-like object, got 'list'"
  | .timestamp fault => fault.message

end RouteCatalog.Yaml
