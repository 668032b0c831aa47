import RouteCatalog.Text.Numeral
import RouteCatalog.Text.Printable

/-!
# Quoted literals

Messages quote texts. The quote is the apostrophe unless the text holds apostrophes and no double
quote. Printable characters stand for themselves; the rest are escaped by number, in two, four or
eight hexadecimal digits.
-/

namespace RouteCatalog.Text

/-- The quotation mark chosen for a text. -/
def quoteFor (t : Text) : CodePoint :=
  if t.contains (CodePoint.ofChar '\'') && !t.contains (CodePoint.ofChar '"') then '"' else '\''

/-- One character inside a literal that is closed by `quote`. -/
def quoteChar (quote c : CodePoint) : Text :=
  if c = quote || c = '\\' then ['\\', c]
  else if c = '\n' then "\\n"
  else if c = '\r' then "\\r"
  else if c = '\t' then "\\t"
  else if c.isPrintable then [c]
  else if c.toNat < 0x100 then "\\x" ++ Text.ofHex 2 c.toNat
  else if c.toNat < 0x10000 then "\\u" ++ Text.ofHex 4 c.toNat
  else "\\U" ++ Text.ofHex 8 c.toNat

def quoted (t : Text) : Text :=
  let quote := t.quoteFor
  quote :: (t.flatMap (quoteChar quote) ++ [quote])

end RouteCatalog.Text

namespace RouteCatalog.Numeral.Fault

/-- The wording of the fault. A quoted text is cut after two hundred characters. -/
def message : Fault → Text
  | .notNumeral text base =>
    "invalid literal for int() with base " ++ Text.ofNat base ++ ": " ++ text.quoted.take 200
  | .tooManyDigits digits =>
    "Exceeds the limit (" ++ Text.ofNat maxDigits ++
      " digits) for integer string conversion: value has " ++ Text.ofNat digits ++
      " digits; use sys.set_int_max_str_digits() to increase the limit"

end RouteCatalog.Numeral.Fault
