import RouteCatalog.Text.CodePoint

/-!
# Taking texts apart

Literals at the front of a text, the first occurrence of a literal, and the pieces between
separators. Everything that is found leaves the text that follows it, so larger grammars are written
by passing the rest along.
-/

namespace RouteCatalog.Text

/-- What follows `literal` at the front of a text. -/
def dropLiteral? : (literal : Text) → Text → Option Text
  | [], t => some t
  | _ :: _, [] => none
  | a :: literal, c :: t => if a = c then dropLiteral? literal t else none

theorem dropLiteral?_eq_some_iff {literal t rest : Text} :
    dropLiteral? literal t = some rest ↔ t = literal ++ rest := by
  induction literal generalizing t with
  | nil => simp [dropLiteral?]
  | cons a literal ih =>
    cases t with
    | nil => simp [dropLiteral?]
    | cons c t =>
      by_cases h : a = c
      · simp [dropLiteral?, h, ih]
      · simp [dropLiteral?, h, Ne.symm h]

/-- The text starts with `literal`. -/
def startsWith (literal t : Text) : Bool := (dropLiteral? literal t).isSome

/-- The text before the first occurrence of `literal`, and the text after it. -/
def breakAt? (literal : Text) : Text → Option (Text × Text)
  | [] => (dropLiteral? literal []).map fun rest ↦ ([], rest)
  | c :: t =>
    match dropLiteral? literal (c :: t) with
    | some rest => some ([], rest)
    | none => (breakAt? literal t).map fun (before, rest) ↦ (c :: before, rest)

theorem eq_append_of_breakAt? {literal t before rest : Text}
    (h : breakAt? literal t = some (before, rest)) : t = before ++ literal ++ rest := by
  induction t generalizing before with
  | nil =>
    simp only [breakAt?, Option.map_eq_some_iff, Prod.mk.injEq] at h
    obtain ⟨_, hr, rfl, rfl⟩ := h
    simpa using dropLiteral?_eq_some_iff.1 hr
  | cons c t ih =>
    rw [breakAt?] at h
    split at h
    · next hr =>
      cases h
      simpa using dropLiteral?_eq_some_iff.1 hr
    · obtain ⟨⟨b, r⟩, hb, hbr⟩ := Option.map_eq_some_iff.1 h
      cases hbr
      simp [ih hb]

/-- Some occurrence of `literal` lies in the text. -/
def hasInside (literal t : Text) : Bool := (breakAt? literal t).isSome

/-- The pieces between the occurrences of a separator; one more than there are separators. -/
def splitOn (separator : CodePoint) (t : Text) : List Text :=
  t.foldr (fun c pieces ↦
    if c = separator then [] :: pieces
    else match pieces with
      | [] => [[c]]
      | piece :: rest => (c :: piece) :: rest) [[]]

/-- The lines of a text, without their line feeds. -/
def lines (t : Text) : List Text := t.splitOn '\n'

def join (separator : Text) (pieces : List Text) : Text := separator.intercalate pieces

/-- The characters before the offset; a negative offset counts from the end, and an offset outside
the text is moved to its nearer end. -/
def upTo (t : Text) (offset : Int) : Text :=
  t.take (if 0 ≤ offset then offset.toNat else (t.length + offset).toNat)

end RouteCatalog.Text
