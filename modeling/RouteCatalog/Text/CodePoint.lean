/-!
# Code points and texts

A text is a list of Unicode code points. Surrogates are code points too: the escape `\ud800` inside
a JSON string or a quoted YAML scalar denotes one, and such a value has to survive being read,
compared and written again. A list of scalar values could not hold it.

String and character literals coerce to texts and code points, so the grammar of a format can be
written with its own characters.
-/

namespace RouteCatalog

/-- A Unicode code point, surrogates included. -/
structure CodePoint where
  toNat : Nat
  toNat_lt : toNat < 0x110000
  deriving DecidableEq

namespace CodePoint

def ofChar (c : Char) : CodePoint :=
  ⟨c.toNat, by
    have h : c.val.toNat < 0x110000 := by
      have := c.valid
      simp only [UInt32.isValidChar, Nat.isValidChar] at this
      omega
    exact h⟩

instance : Coe Char CodePoint := ⟨ofChar⟩

/-- The code point with number `n`; numbers past the last code point give the replacement
character. -/
def ofNat (n : Nat) : CodePoint :=
  if h : n < 0x110000 then ⟨n, h⟩ else ⟨0xFFFD, by decide⟩

theorem ofNat_toNat (c : CodePoint) : ofNat c.toNat = c := by
  simp [ofNat, c.toNat_lt]

theorem toNat_ofNat {n : Nat} (h : n < 0x110000) : (ofNat n).toNat = n := by
  simp [ofNat, h]

theorem toNat_injective {a b : CodePoint} (h : a.toNat = b.toNat) : a = b := by
  cases a; cases b; cases h; rfl

/-- Membership in a table of ranges sorted by their lower ends. -/
def inRanges (c : CodePoint) : List (Nat × Nat) → Bool
  | [] => false
  | (low, high) :: rest =>
    if c.toNat < low then false else if c.toNat ≤ high then true else c.inRanges rest

/-- The numbers `low` to `high` hold the code point. -/
def between (low high : Nat) (c : CodePoint) : Bool := low ≤ c.toNat && c.toNat ≤ high

def isAsciiDigit (c : CodePoint) : Bool := c.between 0x30 0x39

def isAsciiLetter (c : CodePoint) : Bool := c.between 0x41 0x5A || c.between 0x61 0x7A

/-- A high surrogate, the first half of a pair. -/
def isHighSurrogate (c : CodePoint) : Bool := c.between 0xD800 0xDBFF

/-- A low surrogate, the second half of a pair. -/
def isLowSurrogate (c : CodePoint) : Bool := c.between 0xDC00 0xDFFF

def isSurrogate (c : CodePoint) : Bool := c.isHighSurrogate || c.isLowSurrogate

end CodePoint

/-- A text: a list of code points. -/
abbrev Text := List CodePoint

namespace Text

def ofString (s : String) : Text := s.toList.map CodePoint.ofChar

instance : Coe String Text := ⟨ofString⟩

/-- The string of a text; surrogates, which no string holds, become the replacement character. -/
def toString (t : Text) : String :=
  String.ofList (t.map fun c ↦
    if c.isSurrogate then '\uFFFD' else Char.ofNat c.toNat)

/-- The order of texts by code point: at the first difference the smaller code point goes first,
and a text goes before its extensions. -/
def le : Text → Text → Bool
  | [], _ => true
  | _ :: _, [] => false
  | a :: s, b :: t => if a = b then le s t else a.toNat < b.toNat

theorem le_refl (t : Text) : le t t = true := by
  induction t with
  | nil => rfl
  | cons c t ih => simp [le, ih]

theorem le_total (s t : Text) : le s t = true ∨ le t s = true := by
  induction s generalizing t with
  | nil => exact .inl rfl
  | cons a s ih =>
    cases t with
    | nil => exact .inr rfl
    | cons b t =>
      by_cases h : a = b
      · subst h
        simpa [le] using ih t
      · have hne : a.toNat ≠ b.toNat := fun hab ↦ h (CodePoint.toNat_injective hab)
        simp only [le, h, Ne.symm h, if_false, decide_eq_true_eq]
        omega

theorem le_antisymm {s t : Text} (hst : le s t = true) (hts : le t s = true) : s = t := by
  induction s generalizing t with
  | nil =>
    cases t with
    | nil => rfl
    | cons b t => simp [le] at hts
  | cons a s ih =>
    cases t with
    | nil => simp [le] at hst
    | cons b t =>
      by_cases h : a = b
      · subst h
        simp only [le, if_true] at hst hts
        rw [ih hst hts]
      · simp only [le, h, Ne.symm h, if_false, decide_eq_true_eq] at hst hts
        omega

theorem le_trans {s t u : Text} (hst : le s t = true) (htu : le t u = true) : le s u = true := by
  induction s generalizing t u with
  | nil => rfl
  | cons a s ih =>
    cases t with
    | nil => simp [le] at hst
    | cons b t =>
      cases u with
      | nil => simp [le] at htu
      | cons c u =>
        by_cases hab : a = b
        · subst hab
          by_cases hac : a = c
          · subst hac
            simp only [le, if_true] at hst htu ⊢
            exact ih hst htu
          · simp only [le, hac, if_false] at htu ⊢
            exact htu
        · by_cases hbc : b = c
          · subst hbc
            simp only [le, hab, if_false] at hst ⊢
            exact hst
          · simp only [le, hab, hbc, if_false, decide_eq_true_eq] at hst htu
            have hac : a ≠ c := by
              rintro rfl
              omega
            simp only [le, hac, if_false, decide_eq_true_eq]
            omega

end Text

end RouteCatalog
