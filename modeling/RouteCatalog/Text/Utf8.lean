import RouteCatalog.Text.Quoted

/-!
# UTF-8

Decoding reads one byte at a time. Between characters any first byte may follow; inside one, the
machine knows how many continuation bytes are owed and the range of the next. A byte outside that
range breaks the character off: the bytes so far are one fault, and the byte is looked at again as a
first byte. So the parts that are replaced when faults are not fatal are as long as they can be
while still being the beginning of some character.

The encoding of a surrogate is what its number would give; no text that is stored holds one.
-/

namespace RouteCatalog

/-- The contents of a file. -/
abbrev Bytes := List UInt8

namespace Utf8

/-- Why bytes are not a character. -/
inductive Cause
  /-- No character starts with the byte. -/
  | badStart
  /-- The byte that follows does not continue the character. -/
  | badContinuation
  /-- The bytes end inside a character. -/
  | unexpectedEnd
  deriving DecidableEq

/-- Bytes that are not a character. -/
structure Fault where
  cause : Cause
  /-- The offset of the first of them. -/
  start : Nat
  length : Nat
  first : Nat
  deriving DecidableEq

/-- Where the decoder stands inside a character. -/
structure Unfinished where
  /-- The offset of the first byte. -/
  start : Nat
  first : Nat
  bits : Nat
  /-- The continuation bytes that are owed, less one. -/
  owed : Nat
  /-- The least next byte. -/
  low : Nat
  /-- The greatest next byte. -/
  high : Nat

/-- What a first byte means. -/
inductive First
  /-- A character of its own. -/
  | whole
  /-- The start of a longer character: its bits, the continuation bytes after the next, and the
  range of the next. -/
  | start (bits owed low high : Nat)
  /-- The start of no character. -/
  | bad

/-- The meaning of a first byte. -/
def first (b : Nat) : First :=
  if b < 0x80 then .whole
  else if b < 0xC2 then .bad
  else if b < 0xE0 then .start (b - 0xC0) 0 0x80 0xBF
  else if b = 0xE0 then .start 0 1 0xA0 0xBF
  else if b = 0xED then .start 0xD 1 0x80 0x9F
  else if b < 0xF0 then .start (b - 0xE0) 1 0x80 0xBF
  else if b = 0xF0 then .start 0 2 0x90 0xBF
  else if b < 0xF4 then .start (b - 0xF0) 2 0x80 0xBF
  else if b = 0xF4 then .start 4 2 0x80 0x8F
  else .bad

/-- A decoded item: a character or a fault. -/
abbrev Item := Except Fault CodePoint

/-- The items at a first byte `b` at offset `position`, and where the decoder stands after it. -/
def startAt (position b : Nat) : List Item × Option Unfinished :=
  match first b with
  | .whole => ([.ok (.ofNat b)], none)
  | .bad => ([.error ⟨.badStart, position, 1, b⟩], none)
  | .start bits owed low high => ([], some ⟨position, b, bits, owed, low, high⟩)

/-- The items of bytes that start at offset `position`. -/
def itemsFrom : (position : Nat) → Option Unfinished → Bytes → List Item
  | _, none, [] => []
  | position, some p, [] =>
    [.error ⟨.unexpectedEnd, p.start, position - p.start, p.first⟩]
  | position, none, b :: rest =>
    let (items, p) := startAt position b.toNat
    items ++ itemsFrom (position + 1) p rest
  | position, some p, b :: rest =>
    let n := b.toNat
    if p.low ≤ n ∧ n ≤ p.high then
      let bits := p.bits * 0x40 + (n - 0x80)
      if p.owed = 0 then .ok (.ofNat bits) :: itemsFrom (position + 1) none rest
      else
        let q := { p with bits, owed := p.owed - 1, low := 0x80, high := 0xBF }
        itemsFrom (position + 1) (some q) rest
    else
      let (items, q) := startAt position n
      .error ⟨.badContinuation, p.start, position - p.start, p.first⟩ ::
        (items ++ itemsFrom (position + 1) q rest)

/-- The characters and faults of bytes, in order. -/
def items (bytes : Bytes) : List Item := itemsFrom 0 none bytes

/-- The text of bytes, with the replacement character for every fault. -/
def decodeReplacing (bytes : Bytes) : Text :=
  (items bytes).map fun
    | .ok c => c
    | .error _ => .ofNat 0xFFFD

/-- The text of bytes, or the first fault. -/
def decode (bytes : Bytes) : Except Fault Text := (items bytes).mapM id

def encodeChar (c : CodePoint) : Bytes :=
  let n := c.toNat
  if n < 0x80 then [.ofNat n]
  else if n < 0x800 then [.ofNat (0xC0 + n / 0x40), .ofNat (0x80 + n % 0x40)]
  else if n < 0x10000 then
    [.ofNat (0xE0 + n / 0x1000), .ofNat (0x80 + n / 0x40 % 0x40), .ofNat (0x80 + n % 0x40)]
  else
    [.ofNat (0xF0 + n / 0x40000), .ofNat (0x80 + n / 0x1000 % 0x40),
      .ofNat (0x80 + n / 0x40 % 0x40), .ofNat (0x80 + n % 0x40)]

def encode (t : Text) : Bytes := t.flatMap encodeChar

def Cause.message : Cause → Text
  | .badStart => "invalid start byte"
  | .badContinuation => "invalid continuation byte"
  | .unexpectedEnd => "unexpected end of data"

def Fault.message (f : Fault) : Text :=
  (if f.length = 1 then
    "'utf-8' codec can't decode byte 0x" ++ Text.ofHex 2 f.first ++ " in position " ++
      Text.ofNat f.start
  else
    "'utf-8' codec can't decode bytes in position " ++ Text.ofNat f.start ++ "-" ++
      Text.ofNat (f.start + f.length - 1)) ++ ": " ++ f.cause.message

end Utf8

namespace Text

/-- The text with every carriage return, alone or before a line feed, made a line feed. -/
def unifyNewlines : Text → Text
  | [] => []
  | [c] => [if c = '\r' then CodePoint.ofChar '\n' else c]
  | c :: d :: t =>
    if c = '\r' then
      CodePoint.ofChar '\n' :: if d = '\n' then unifyNewlines t else unifyNewlines (d :: t)
    else c :: unifyNewlines (d :: t)

end Text

end RouteCatalog
