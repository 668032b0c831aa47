import RouteCatalog.Text.Utf8

/-!
# Base64

Bytes as letters of a 64-character alphabet, three bytes to four characters. Decoding passes over
characters outside the alphabet and ends at the padding of an unfinished group.
-/

namespace RouteCatalog.Base64

def alphabet : Text := "ABCDEFGHIJKLMNOPQRSTUVWXYZabcdefghijklmnopqrstuvwxyz0123456789+/"

/-- The character of a six-bit number. -/
def character (n : Nat) : CodePoint := alphabet.getD (n % 64) '='

/-- The six-bit number of a character. -/
def number? (c : CodePoint) : Option Nat := alphabet.idxOf? c

def encode : Bytes → Text
  | a :: b :: c :: rest =>
    let n := a.toNat * 0x10000 + b.toNat * 0x100 + c.toNat
    character (n / 0x40000) :: character (n / 0x1000) :: character (n / 0x40) :: character n ::
      encode rest
  | [a, b] =>
    let n := a.toNat * 0x100 + b.toNat
    [character (n / 0x400), character (n / 0x10), character (n * 4), CodePoint.ofChar '=']
  | [a] =>
    [character (a.toNat / 4), character (a.toNat * 16), CodePoint.ofChar '=', CodePoint.ofChar '=']
  | [] => []

/-- Decodes a text. So far, `count` characters of the current group were read, their bits not yet
given out are `left`, and `pads` padding characters followed the last of them. -/
def decodeFrom : (count left pads : Nat) → Text → Option Bytes
  | count, _, _, [] => if count = 0 then some [] else none
  | count, left, pads, c :: t =>
    if c = '=' then
      if count ≥ 2 && count + pads + 1 ≥ 4 then some []
      else decodeFrom count left (if count ≥ 2 then pads + 1 else pads) t
    else match number? c with
      | none => decodeFrom count left pads t
      | some n =>
        match count with
        | 0 => decodeFrom 1 n 0 t
        | 1 => (decodeFrom 2 (n % 16) 0 t).map (.ofNat (left * 4 + n / 16) :: ·)
        | 2 => (decodeFrom 3 (n % 4) 0 t).map (.ofNat (left * 16 + n / 4) :: ·)
        | _ => (decodeFrom 0 0 0 t).map (.ofNat (left * 64 + n) :: ·)

/-- The bytes of a text; nothing when the text ends inside a group. -/
def decode? (t : Text) : Option Bytes := decodeFrom 0 0 0 t

end RouteCatalog.Base64
