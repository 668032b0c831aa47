import Mathlib.Data.List.Infix
import RouteCatalog.Proofs.Route.Target

/-!
# Words and fields in a text

Patterns of registrations look for words regardless of letter case. A text without a word stays
clear of it when what follows does not continue the word (`Clear.of_halts`), so a search passes over
it. Where a field is written out, a verb in any letter case is recognised, and any other text in its
place is not (`methodField_of_isVerb`, `methodField_of_not_isVerb`).
-/

namespace RouteCatalog.Declaration

variable {word t x y rest : Text}

/-! ## Words at the front of a text -/

theorem dropWord?_eq_some_iff :
    dropWord? word t = some rest ↔
      ∃ written, Text.SameLetters word written ∧ t = written ++ rest := by
  induction word generalizing t with
  | nil =>
    constructor
    · rintro ⟨⟩
      exact ⟨[], .nil, rfl⟩
    · rintro ⟨_, ⟨⟩, rfl⟩
      rfl
  | cons letter word ih =>
    cases t with
    | nil =>
      constructor
      · rintro ⟨⟩
      · rintro ⟨_, ⟨⟩, heq⟩
        cases heq
    | cons c t =>
      rw [dropWord?]
      constructor
      · intro h
        split at h
        · next hletter =>
          obtain ⟨written, hwritten, rfl⟩ := ih.mp h
          exact ⟨c :: written, .cons hletter hwritten, rfl⟩
        · cases h
      · rintro ⟨_, hwritten, heq⟩
        cases hwritten with
        | cons hletter hwritten =>
          obtain ⟨rfl, rfl⟩ := List.cons.inj heq
          rw [if_pos hletter]
          exact ih.mpr ⟨_, hwritten, rfl⟩

/-- The word and the text have different letters at some place, so that the text does not start with
the word, however it goes on. -/
def Clashes : (word t : Text) → Prop
  | letter :: word, c :: t => CodePoint.sameLetter letter c = false ∨ Clashes word t
  | _, _ => False

instance : (word t : Text) → Decidable (Clashes word t)
  | _ :: word, _ :: t =>
    have := instDecidableClashes word t
    inferInstanceAs (Decidable (_ ∨ _))
  | [], _ | _ :: _, [] => isFalse id

theorem dropWord?_of_clashes (h : Clashes word t) (y : Text) : dropWord? word (t ++ y) = none := by
  induction word generalizing t with
  | nil => exact h.elim
  | cons letter word ih =>
    cases t with
    | nil => exact h.elim
    | cons c t =>
      rw [List.cons_append, dropWord?]
      split
      · next hletter => exact ih (h.resolve_left (by rw [hletter]; decide))
      · rfl

/-! ## Texts without a word -/

/-- The word starts nowhere in the first text, when the second follows. -/
def Clear (word : Text) : (x y : Text) → Prop
  | [], _ => True
  | c :: x, y => dropWord? word (c :: x ++ y) = none ∧ Clear word x y

instance (word : Text) : (x y : Text) → Decidable (Clear word x y)
  | [], _ => isTrue trivial
  | _ :: x, y =>
    have := instDecidableClear word x y
    inferInstanceAs (Decidable (_ ∧ _))

theorem clear_append {x' : Text} :
    Clear word (x ++ x') y ↔ Clear word x (x' ++ y) ∧ Clear word x' y := by
  induction x with
  | nil => simp [Clear]
  | cons c x ih =>
    rw [List.cons_append, Clear, Clear, ih, and_assoc, List.cons_append, List.append_assoc,
      List.cons_append]

/-- A pattern that starts with a word declines where the word does not start. -/
theorem Clear.declines {α : Type} {p : Pattern α}
    (hp : ∀ before t, dropWord? word t = none → p before t = none) (h : Clear word x y) :
    p.Declines x y := by
  induction x with
  | nil => trivial
  | cons c x ih => exact ⟨fun before ↦ hp before _ h.1, ih h.2⟩

/-- A text that is fixed is clear of a word when each of its ends clashes with it. -/
theorem clear_of_clashes (h : ∀ tail ∈ x.tails, tail = [] ∨ Clashes word tail) (y : Text) :
    Clear word x y := by
  induction x with
  | nil => trivial
  | cons c x ih =>
    rw [List.tails_cons, List.forall_mem_cons] at h
    exact ⟨dropWord?_of_clashes (h.1.resolve_left (List.cons_ne_nil _ _)) y, ih h.2⟩

/-- No end of the word goes on in the text. -/
def Halts (word y : Text) : Prop := ∀ k < word.length, k ≠ 0 → dropWord? (word.drop k) y = none

/-- A text that is fixed stops a word when it clashes with each of the word's ends. -/
theorem halts_of_clashes (h : ∀ k < word.length, k ≠ 0 → Clashes (word.drop k) x) (y : Text) :
    Halts word (x ++ y) := fun k hk hne ↦ dropWord?_of_clashes (h k hk hne) y

/-- A word in a text that goes on is in the first part, or starts there and goes on. -/
theorem dropWord?_append (h : dropWord? word (x ++ y) = some rest) :
    (dropWord? word x).isSome = true ∨
      x.length < word.length ∧ dropWord? (word.drop x.length) y = some rest := by
  induction word generalizing x with
  | nil => exact .inl rfl
  | cons letter word ih =>
    cases x with
    | nil => exact .inr ⟨Nat.succ_pos _, h⟩
    | cons c x =>
      rw [List.cons_append, dropWord?] at h
      split at h
      · next hletter =>
        rw [dropWord?, if_pos hletter]
        rcases ih h with hfirst | ⟨hshort, hsecond⟩
        · exact .inl hfirst
        · exact .inr ⟨Nat.succ_lt_succ hshort, hsecond⟩
      · cases h

/-- A text without the word stays clear of it when what follows stops the word. -/
theorem Clear.of_halts (hx : Clear word x []) (hy : Halts word y) : Clear word x y := by
  induction x with
  | nil => trivial
  | cons c x ih =>
    refine ⟨?_, ih hx.2⟩
    by_contra hsome
    obtain ⟨rest, hfound⟩ := Option.ne_none_iff_exists'.mp hsome
    rcases dropWord?_append hfound with hfirst | ⟨hshort, hsecond⟩
    · rw [← List.append_nil (c :: x), hx.1] at hfirst
      cases hfirst
    · rw [hy _ hshort (Nat.succ_ne_zero _)] at hsecond
      cases hsecond

/-- The words that patterns of registrations look for. -/
def fieldWords : List Text := ["route", "method", "url"]

/-- None of the words occurs in the text, in any letter case. -/
def Wordless (t : Text) : Prop := ∀ word ∈ fieldWords, Clear word t []

instance (t : Text) : Decidable (Wordless t) := inferInstanceAs (Decidable (∀ word ∈ fieldWords, _))

/-- None of the words goes on in the text. -/
def Stops (y : Text) : Prop := ∀ word ∈ fieldWords, Halts word y

theorem stops_of_clashes
    (h : ∀ word ∈ fieldWords, ∀ k < word.length, k ≠ 0 → Clashes (word.drop k) x) (y : Text) :
    Stops (x ++ y) := fun word hword ↦ halts_of_clashes (h word hword) y

theorem Wordless.clear (hx : Wordless x) (hword : word ∈ fieldWords) (hy : Stops y) :
    Clear word x y := (hx word hword).of_halts (hy word hword)

theorem clear_quoted {start : Text} (hstart : ∀ tail ∈ start.tails, tail = [] ∨ Clashes word tail)
    (hx : Wordless x) (hword : word ∈ fieldWords) (y : Text) :
    Clear word (start ++ x ++ "'") y := by
  have hmark : ∀ word ∈ fieldWords, ∀ tail ∈ (Text.ofString "'").tails,
      tail = [] ∨ Clashes word tail := by decide
  rw [clear_append, clear_append]
  exact ⟨⟨clear_of_clashes hstart _, hx.clear hword (stops_of_clashes (by decide) y)⟩,
    clear_of_clashes (hmark word hword) y⟩

/-! ## Verbs -/

/-- The text is a verb, letter case ignored. -/
def IsVerb (t : Text) : Prop := ∃ word ∈ verbWords, dropWord? word t = some []

instance (t : Text) : Decidable (IsVerb t) :=
  inferInstanceAs (Decidable (∃ word ∈ verbWords, dropWord? word t = some []))

theorem exists_of_isVerb (h : IsVerb t) : ∃ word ∈ verbWords, Text.SameLetters word t := by
  obtain ⟨word, hword, hdrop⟩ := h
  obtain ⟨written, hwritten, rfl⟩ := dropWord?_eq_some_iff.mp hdrop
  exact ⟨word, hword, by rwa [List.append_nil]⟩

theorem isVerb_of_sameLetters (hword : word ∈ verbWords) (h : Text.SameLetters word t) :
    IsVerb t := ⟨word, hword, dropWord?_eq_some_iff.mpr ⟨t, h, (List.append_nil t).symm⟩⟩

theorem eq_of_sameLetter {a b c : CodePoint} (ha : a.between 0x61 0x7A = true)
    (hb : b.between 0x61 0x7A = true) (hac : CodePoint.sameLetter a c = true)
    (hbc : CodePoint.sameLetter b c = true) : a = b := by
  simp only [CodePoint.between, Bool.and_eq_true, decide_eq_true_eq] at ha hb
  refine CodePoint.toNat_injective ?_
  have hs : (CodePoint.ofChar 's').toNat = 0x73 := rfl
  have hk : (CodePoint.ofChar 'k').toNat = 0x6B := rfl
  have hi : (CodePoint.ofChar 'i').toNat = 0x69 := rfl
  rcases CodePoint.sameLetter_iff.mp hac with rfl | hac | ⟨hc, rfl⟩ | ⟨hc, rfl⟩ | ⟨hc, rfl⟩ <;>
    rcases CodePoint.sameLetter_iff.mp hbc with rfl | hbc | ⟨hc', rfl⟩ | ⟨hc', rfl⟩ | ⟨hc', rfl⟩ <;>
      omega

theorem Clashes.of_sameLetters {other : Text} (h : Clashes other word)
    (hother : ∀ letter ∈ other, letter.between 0x61 0x7A = true)
    (hword : ∀ letter ∈ word, letter.between 0x61 0x7A = true) (hsame : Text.SameLetters word t) :
    Clashes other t := by
  induction hsame generalizing other with
  | nil => cases other <;> exact h.elim
  | @cons letter c word t hletter _ ih =>
    cases other with
    | nil => exact h.elim
    | cons first other =>
      obtain ⟨hfirst, hother⟩ := List.forall_mem_cons.mp hother
      obtain ⟨hsmall, hword⟩ := List.forall_mem_cons.mp hword
      refine h.imp (fun hdiffer ↦ ?_) fun hlater ↦ ih hlater hother hword
      by_contra hform
      rw [Bool.not_eq_false] at hform
      rw [eq_of_sameLetter hfirst hsmall hform hletter, CodePoint.sameLetter_iff.mpr (.inl rfl)]
        at hdiffer
      cases hdiffer

/-- A verb at the front of a text is the word that is recognised there. -/
theorem anyWord?_of_isVerb (h : IsVerb t) (y : Text) :
    anyWord? verbWords (t ++ y) = some (t, y) := by
  obtain ⟨word, hword, hsame⟩ := exists_of_isVerb h
  have hletters : ∀ word ∈ verbWords, ∀ letter ∈ word, letter.between 0x61 0x7A = true := by decide
  have hclash : ∀ other ∈ verbWords, ∀ word ∈ verbWords, other ≠ word → Clashes other word := by
    decide
  have hdrop : dropWord? word (t ++ y) = some y := dropWord?_eq_some_iff.mpr ⟨t, hsame, rfl⟩
  have htake : (t ++ y).take word.length = t := by rw [hsame.length_eq, List.take_left]
  cases hfound : anyWord? verbWords (t ++ y) with
  | none =>
    have hnone := List.findSome?_eq_none_iff.mp hfound word hword
    rw [hdrop] at hnone
    cases hnone
  | some found =>
    -- Any other verb clashes with this one, so it is not what was found.
    obtain ⟨other, hother, hfirst⟩ := List.exists_of_findSome?_eq_some hfound
    have heq : other = word := by
      by_contra hne
      have hclashes := (hclash other hother word hword hne).of_sameLetters (hletters other hother)
        (hletters word hword) hsame
      rw [dropWord?_of_clashes hclashes] at hfirst
      cases hfirst
    rw [heq, hdrop, htake] at hfirst
    exact hfirst.symm

/-! ## Fields -/

theorem isQuote_of_sameLetter {letter c : CodePoint} (hletter : letter.between 0x61 0x7A = true)
    (h : CodePoint.sameLetter letter c = true) : isQuote c = false := by
  by_contra hquote
  rw [Bool.not_eq_false] at hquote
  simp only [isQuote, Bool.or_eq_true, decide_eq_true_eq] at hquote
  simp only [CodePoint.between, Bool.and_eq_true, decide_eq_true_eq] at hletter
  have hmark : c.toNat = 0x60 ∨ c.toNat = 0x22 ∨ c.toNat = 0x27 := by
    rcases hquote with (rfl | rfl) | rfl
    · exact .inl rfl
    · exact .inr (.inl rfl)
    · exact .inr (.inr rfl)
  rcases CodePoint.sameLetter_iff.mp h with rfl | h | ⟨hc, -⟩ | ⟨hc, -⟩ | ⟨hc, -⟩ <;> omega

theorem unquoted_of_sameLetters (hword : ∀ letter ∈ word, letter.between 0x61 0x7A = true)
    (h : Text.SameLetters word t) : Unquoted t := by
  induction h with
  | nil => exact unquoted_nil
  | cons hletter _ ih =>
    obtain ⟨hsmall, hword⟩ := List.forall_mem_cons.mp hword
    exact List.forall_mem_cons.mpr ⟨isQuote_of_sameLetter hsmall hletter, ih hword⟩

theorem takeWhile_of_unquoted (ht : Unquoted t) {mark : CodePoint} (hmark : isQuote mark = true)
    (y : Text) : (t ++ mark :: y).takeWhile (!isQuote ·) = t := by
  rw [List.takeWhile_append_of_pos fun c hc ↦ by rw [ht c hc]; rfl,
    List.takeWhile_cons_of_neg (by rw [hmark]; decide), List.append_nil]

theorem dropWhile_of_unquoted (ht : Unquoted t) {mark : CodePoint} (hmark : isQuote mark = true)
    (y : Text) : (t ++ mark :: y).dropWhile (!isQuote ·) = mark :: y := by
  rw [List.dropWhile_append_of_pos fun c hc ↦ by rw [ht c hc]; rfl,
    List.dropWhile_cons_of_neg (by rw [hmark]; decide)]

theorem quoted?_of_unquoted {mark mark' : CodePoint} (hmark : isQuote mark = true)
    (hmark' : isQuote mark' = true) (ht : Unquoted t) (y : Text) :
    quoted? (mark :: (t ++ mark' :: y)) = some (t, y) := by
  simp only [quoted?, dropQuote?, hmark, if_true, Option.bind_eq_bind, Option.bind_some,
    dropWhile_of_unquoted ht hmark', takeWhile_of_unquoted ht hmark', hmark', Option.pure_def]

theorem quotedNonempty?_of_unquoted {mark mark' : CodePoint} (hmark : isQuote mark = true)
    (hmark' : isQuote mark' = true) (hne : t ≠ []) (ht : Unquoted t) (y : Text) :
    quotedNonempty? (mark :: (t ++ mark' :: y)) = some (t, y) := by
  rw [quotedNonempty?, quoted?_of_unquoted hmark hmark' ht]
  exact if_neg (mt List.isEmpty_iff.mp hne)

theorem methodField_eq (before : Option CodePoint) (t : Text) :
    methodField before ("method: '" ++ t) = (anyWord? verbWords t).bind fun (verb, t) ↦
      (dropQuote? t).map fun rest ↦ (verb, rest) := by
  change (anyWord? verbWords t).bind _ = _
  refine congrArg _ (funext fun found ↦ ?_)
  cases hquote : dropQuote? found.2 <;> simp [hquote]

theorem methodField_of_isVerb (h : IsVerb t) (before : Option CodePoint) (y : Text) :
    methodField before ("method: '" ++ t ++ "'" ++ y) = some (t, y) := by
  rw [List.append_assoc, List.append_assoc, methodField_eq, anyWord?_of_isVerb h]
  rfl

theorem methodField_of_not_isVerb (hquoted : Unquoted t) (h : ¬ IsVerb t)
    (before : Option CodePoint) (y : Text) :
    methodField before ("method: '" ++ t ++ "'" ++ y) = none := by
  have hletters : ∀ word ∈ verbWords, ∀ letter ∈ word, letter.between 0x61 0x7A = true := by decide
  rw [List.append_assoc, List.append_assoc, methodField_eq]
  by_contra hsome
  obtain ⟨found, hfound⟩ := Option.ne_none_iff_exists'.mp hsome
  obtain ⟨⟨verb, after⟩, hverb, hclosed⟩ := Option.bind_eq_some_iff.mp hfound
  obtain ⟨closed, hquote, -⟩ := Option.map_eq_some_iff.mp hclosed
  obtain ⟨word, hword, hdrop⟩ := List.exists_of_findSome?_eq_some hverb
  obtain ⟨rest, hrest, heq⟩ := Option.map_eq_some_iff.mp hdrop
  obtain ⟨written, hwritten, htext⟩ := dropWord?_eq_some_iff.mp hrest
  cases heq
  cases after with
  | nil => cases hquote
  | cons mark after =>
    rw [dropQuote?] at hquote
    split at hquote
    · next hmark =>
      -- Both texts end at the first quotation mark, so what is written there is the whole text.
      have hwhole := congrArg (List.takeWhile (!isQuote ·)) htext
      rw [takeWhile_of_unquoted (unquoted_of_sameLetters (hletters word hword) hwritten) hmark]
        at hwhole
      have ht : (t ++ (Text.ofString "'" ++ y)).takeWhile (!isQuote ·) = t :=
        takeWhile_of_unquoted hquoted rfl y
      rw [ht] at hwhole
      exact h (isVerb_of_sameLetters hword (hwhole ▸ hwritten))
    · cases hquote

theorem urlField_quoted (hne : t ≠ []) (hquoted : Unquoted t) (before : Option CodePoint)
    (y : Text) : urlField before ("url: '" ++ t ++ "'" ++ y) = some (t, y) := by
  rw [List.append_assoc, List.append_assoc]
  exact quotedNonempty?_of_unquoted (by decide) (by decide) hne hquoted y

end RouteCatalog.Declaration
