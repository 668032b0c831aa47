import RouteCatalog.Proofs.Json.Number
import RouteCatalog.Proofs.Json.Quote

/-!
# Written scalars are tokens

A text is cut character by character, and what a token takes is skipped one character at a time.
The lemmas here say what is cut off the front of a written text: a mark, blanks, a string or a
scalar, each followed by the tokens of the rest.
-/

namespace RouteCatalog.Json.Token

open Text (EndsValue)

variable {position : Nat} {rest : Text}

/-! ## Taking a token -/

theorem allFrom_skip (skipped : Text) :
    allFrom skipped.length position (skipped ++ rest) =
      allFrom 0 (position + skipped.length) rest := by
  induction skipped generalizing position with
  | nil => rfl
  | cons c skipped ih =>
    rw [List.length_cons, List.cons_append, allFrom, ih, Nat.add_right_comm, Nat.add_assoc]

theorem allFrom_blank {c : CodePoint} (hc : isBlank c = true) (t : Text) :
    allFrom 0 position (c :: t) = allFrom 0 (position + 1) t := by
  rw [allFrom, if_pos hc]

theorem allFrom_replicate_blank (n : Nat) :
    allFrom 0 position (List.replicate n (CodePoint.ofChar ' ') ++ rest) =
      allFrom 0 (position + n) rest := by
  induction n generalizing position with
  | zero => rfl
  | succ n ih =>
    rw [List.replicate_succ, List.cons_append, allFrom_blank rfl, ih, Nat.add_right_comm,
      Nat.add_assoc]

/-- The text is what a token takes when `rest` stands behind it. -/
def IsFront (text : Text) (token : Token) (rest : Text) : Prop :=
  ∃ c t, text = c :: t ∧ isBlank c = false ∧
    ∀ position, atFront position c (t ++ rest) = (token, t.length + 1)

theorem IsFront.of {c : CodePoint} {t : Text} {token : Token} (hblank : isBlank c = false)
    (hfront : ∀ position, atFront position c (t ++ rest) = (token, t.length + 1)) :
    IsFront (c :: t) token rest := ⟨c, t, rfl, hblank, hfront⟩

/-- The token is cut, whatever its offset, and the cutting goes on behind it. -/
theorem IsFront.allFrom_append {text : Text} {token : Token} (h : IsFront text token rest)
    (hlast : token.isLast = false) (position : Nat) :
    allFrom 0 position (text ++ rest) =
      (position, token) :: allFrom 0 (position + text.length) rest := by
  obtain ⟨c, t, rfl, hblank, hfront⟩ := h
  simp only [List.cons_append, allFrom, hblank, Bool.false_eq_true, if_false, hfront, hlast,
    Nat.add_sub_cancel, allFrom_skip, List.length_cons, Nat.add_assoc, Nat.add_comm 1]

/-- The token at the front of a text is one, and so is what it takes. -/
theorem IsFront.unique {s t s' t' : Text} {token token' : Token} (h : IsFront s token t)
    (h' : IsFront s' token' t') (heq : s ++ t = s' ++ t') : token = token' ∧ s = s' ∧ t = t' := by
  obtain ⟨c, u, rfl, -, hfront⟩ := h
  obtain ⟨c', u', rfl, -, hfront'⟩ := h'
  rw [List.cons_append, List.cons_append] at heq
  obtain ⟨rfl, hrest⟩ := List.cons.inj heq
  have hread := hfront 0
  rw [hrest, hfront' 0] at hread
  obtain ⟨htoken, hlength⟩ := Prod.mk.inj hread.symm
  obtain ⟨rfl, rfl⟩ := List.append_inj hrest (Nat.succ.inj hlength)
  exact ⟨htoken, rfl, rfl⟩

/-! ## Marks -/

theorem isFront_opening_array : IsFront "[" (.opening .array) rest :=
  .of (by decide) fun _ ↦ rfl

theorem isFront_closing_array : IsFront "]" (.closing .array) rest :=
  .of (by decide) fun _ ↦ rfl

theorem isFront_opening_object : IsFront "\x7b" (.opening .object) rest :=
  .of (by decide) fun _ ↦ rfl

theorem isFront_closing_object : IsFront "\x7d" (.closing .object) rest :=
  .of (by decide) fun _ ↦ rfl

theorem isFront_comma : IsFront "," .comma rest := .of (by decide) fun _ ↦ rfl

theorem isFront_colon : IsFront ":" .colon rest := .of (by decide) fun _ ↦ rfl

/-! ## Strings -/

theorem isFront_quote {text : Text} (htext : Text.Unsplit text) :
    IsFront (quote text) (.text text) rest := by
  refine .of (by decide) fun position ↦ ?_
  have hread : readText position (.plain false) (position + 1) []
      (text.flatMap escapeChar ++ CodePoint.ofChar '"' :: rest) =
        .ok ([].reverse ++ text, position + 1 + (text.flatMap escapeChar).length + 1) :=
    readText_quote htext (by simp) rest
  rw [List.append_assoc, List.singleton_append]
  simp only [atFront, hread, List.reverse_nil, List.nil_append, List.length_append,
    List.length_singleton]
  rw [show position + 1 + (text.flatMap escapeChar).length + 1 - position =
    (text.flatMap escapeChar).length + 1 + 1 from by omega]
  rfl

/-! ## Scalars -/

/-- What reads as a number starts neither with a blank nor with a mark. -/
private theorem head_of_number? {c : CodePoint} {t : Text} {found : Token × Text}
    (h : number? (c :: t) = some found) :
    isBlank c = false ∧ c ≠ '[' ∧ c ≠ ']' ∧ c ≠ '{' ∧ c ≠ '}' ∧ c ≠ ',' ∧ c ≠ ':' ∧ c ≠ '"' := by
  refine ⟨?_, ?_, ?_, ?_, ?_, ?_, ?_, ?_⟩
  · rw [Bool.eq_false_iff]
    intro hblank
    simp only [isBlank, Bool.or_eq_true, decide_eq_true_eq] at hblank
    rcases hblank with ((rfl | rfl) | rfl) | rfl <;> cases h
  all_goals
    rintro rfl
    cases h

private theorem find?_words_of_number? {t : Text} {found : Token × Text}
    (h : number? t = some found) : words.find? (fun (w, _) ↦ Text.startsWith w t) = none := by
  rw [List.find?_eq_none]
  intro w hw hstarts
  obtain ⟨rest, hrest⟩ := Option.isSome_iff_exists.mp hstarts
  rw [Text.dropLiteral?_eq_some_iff] at hrest
  rw [hrest] at h
  simp only [words, List.mem_cons, List.not_mem_nil, or_false] at hw
  rcases hw with rfl | rfl | rfl | rfl | rfl | rfl <;> cases h

private theorem number?_of_endsValue (hrest : EndsValue rest) : number? rest = none := by
  cases rest with
  | nil => rfl
  | cons c t => rcases hrest c rfl with rfl | rfl | rfl | rfl <;> rfl

theorem isFront_cons_of_number? {c : CodePoint} {t : Text} {token : Token}
    (h : number? (c :: t ++ rest) = some (token, rest)) : IsFront (c :: t) token rest := by
  obtain ⟨hblank, h₁, h₂, h₃, h₄, h₅, h₆, h₇⟩ := head_of_number? h
  refine .of hblank fun position ↦ ?_
  have hwords := find?_words_of_number? h
  rw [List.cons_append] at h hwords
  simp only [atFront, h₁, h₂, h₃, h₄, h₅, h₆, h₇, if_false, hwords, h, List.length_append]
  rw [show t.length + rest.length + 1 - rest.length = t.length + 1 from by omega]

theorem isFront_of_number? {text : Text} {token : Token} (hrest : EndsValue rest)
    (h : number? (text ++ rest) = some (token, rest)) : IsFront text token rest := by
  cases text with
  | nil =>
    rw [List.nil_append, number?_of_endsValue hrest] at h
    cases h
  | cons c t => exact isFront_cons_of_number? h

theorem isFront_word (i : Nat) {word : Text} {v : Json} (hi : words[i]? = some (word, v)) :
    IsFront word (.scalar v) rest := by
  have hword := List.mem_of_getElem? hi
  simp only [words, List.mem_cons, List.not_mem_nil, or_false, Prod.mk.injEq] at hword
  rcases hword with ⟨rfl, rfl⟩ | ⟨rfl, rfl⟩ | ⟨rfl, rfl⟩ | ⟨rfl, rfl⟩ | ⟨rfl, rfl⟩ | ⟨rfl, rfl⟩
  all_goals exact .of (by decide) fun _ ↦ rfl

/-- The token of a value that holds no others. -/
def ofScalar : Json → Token
  | .str t => .text t
  | .int i => ofInt i
  | v => .scalar v

/-- **A written scalar is one token.** -/
theorem isFront_scalarText {v : Json} (hv : v.isScalar = true) (hunsplit : v.Unsplit)
    (hrest : EndsValue rest) : IsFront (scalarText v) (ofScalar v) rest := by
  cases v with
  | null => exact isFront_word 0 rfl
  | bool b =>
    cases b with
    | true => exact isFront_word 1 rfl
    | false => exact isFront_word 2 rfl
  | int i => exact isFront_of_number? hrest (number?_ofInt i hrest)
  | float x =>
    cases x with
    | nan => exact isFront_word 3 rfl
    | infinite negative =>
      cases negative with
      | false => exact isFront_word 4 rfl
      | true => exact isFront_word 5 rfl
    | finite negative m => exact isFront_of_number? hrest (number?_text negative m hrest)
  | str t => exact isFront_quote hunsplit
  | arr | obj => cases hv

theorem isLast_ofScalar {v : Json} (hshort : v.Short) : (ofScalar v).isLast = false := by
  cases v with
  | int i => rw [ofScalar, ofInt, if_neg (Nat.not_lt.mpr hshort)]; rfl
  | _ => rfl

end RouteCatalog.Json.Token
