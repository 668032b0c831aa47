import RouteCatalog.Text.CodePoint

/-!
# Letter case

Verbs and keywords are ASCII, and they are compared regardless of case with three comparisons that
differ outside ASCII. Each is exact for texts that are compared with ASCII words: the tables list
every character whose image under the full Unicode mapping consists of ASCII characters, and a
character that is left alone here keeps at least one character outside ASCII in its image.
-/

namespace RouteCatalog.CodePoint

/-- The upper-case form: `ß`, the dotless `ı`, the long `ſ` and the Latin ligatures become ASCII
letters, like the small letters of ASCII. -/
def upper (c : CodePoint) : Text :=
  if c.between 0x61 0x7A then [ofNat (c.toNat - 0x20)]
  else if c.toNat = 0xDF then "SS"
  else if c.toNat = 0x131 then "I"
  else if c.toNat = 0x17F then "S"
  else if c.toNat = 0xFB00 then "FF"
  else if c.toNat = 0xFB01 then "FI"
  else if c.toNat = 0xFB02 then "FL"
  else if c.toNat = 0xFB03 then "FFI"
  else if c.toNat = 0xFB04 then "FFL"
  else if c.toNat = 0xFB05 then "ST"
  else if c.toNat = 0xFB06 then "ST"
  else [c]

/-- The lower-case form: the dotted `İ` becomes an `i` with a combining dot above, and the Kelvin
sign a `k`. -/
def lower (c : CodePoint) : Text :=
  if c.between 0x41 0x5A then [ofNat (c.toNat + 0x20)]
  else if c.toNat = 0x130 then [ofNat 0x69, ofNat 0x307]
  else if c.toNat = 0x212A then "k"
  else [c]

/-- The same letter up to case, for a small letter `letter` of ASCII: the long `ſ` is a form of
`s`, the Kelvin sign of `k`, and the dotted `İ` and the dotless `ı` of `i`. -/
def sameLetter (letter c : CodePoint) : Bool :=
  c = letter || c.toNat + 0x20 = letter.toNat && c.between 0x41 0x5A ||
    c.toNat = 0x17F && letter = 's' || c.toNat = 0x212A && letter = 'k' ||
    c.between 0x130 0x131 && letter = 'i'

end RouteCatalog.CodePoint

namespace RouteCatalog.Text

def upper (t : Text) : Text := t.flatMap CodePoint.upper

def lower (t : Text) : Text := t.flatMap CodePoint.lower

end RouteCatalog.Text
