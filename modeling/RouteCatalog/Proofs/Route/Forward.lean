import RouteCatalog.Proofs.Route.Expression
import RouteCatalog.Proofs.Route.Pairing
import RouteCatalog.Proofs.Text.Search

/-!
# One forward pass for registrations

The expression of a registration has three gaps, and each of them can end wherever the next part
matches. Still the first place is always the right one. A part that starts later ends later, too
(`EndsInOrder`): the first letter of a part stands nowhere else in it, but for a quoted path, and
what starts in a quoted path goes on past its end. So when nothing can follow the first field,
nothing can follow a later one (`findSome?_tails_bind`), and when nothing can follow an opening,
nothing can follow a later opening.

So backtracking finds what one forward pass finds, which goes from part to part and ends as soon as
one is missing (`registrations_forward`).
-/

namespace RouteCatalog

namespace Declaration

open Expression

variable {α β : Type} {p : CodePoint → Bool} {t u rest : Text}

/-! ## What a part passes over -/

/-- None of the characters of a class stands before the rest of the text. -/
def Skips (p : CodePoint → Bool) (t rest : Text) : Prop :=
  ∃ front, t = front ++ rest ∧ ∀ c ∈ front, p c = false

theorem Skips.trans {t' : Text} (h : Skips p t t') (h' : Skips p t' rest) : Skips p t rest := by
  obtain ⟨front, rfl, hfront⟩ := h
  obtain ⟨front', rfl, hfront'⟩ := h'
  exact ⟨front ++ front', (List.append_assoc _ _ _).symm, List.forall_mem_append.mpr
    ⟨hfront, hfront'⟩⟩

theorem Skips.isSuffix (h : Skips p t rest) : rest <:+ t := by
  obtain ⟨front, rfl, -⟩ := h
  exact List.suffix_append front rest

/-- A part of a text that starts with a character of the class does not start in what is passed
over. -/
theorem Skips.isSuffix_cons {c : CodePoint} (h : Skips p t rest) (hu : c :: u <:+ t)
    (hc : p c = true) : c :: u <:+ rest := by
  obtain ⟨front, rfl, hfront⟩ := h
  rcases List.suffix_or_suffix_of_suffix hu (List.suffix_append front rest) with hin | ⟨inner, hout⟩
  · exact hin
  · obtain ⟨earlier, hearlier⟩ := hu
    rw [← hout, ← List.append_assoc] at hearlier
    have hfronts : earlier ++ inner = front := List.append_cancel_right hearlier
    cases inner with
    | nil => exact hout ▸ List.suffix_rfl
    | cons d inner =>
      obtain ⟨rfl, -⟩ := List.cons.inj hout
      rw [hfront d (hfronts ▸ by simp)] at hc
      cases hc

theorem skips_trimLeft (hblank : ∀ c : CodePoint, c.isBlank = true → p c = false) (t : Text) :
    Skips p t t.trimLeft :=
  ⟨t.takeWhile CodePoint.isBlank, List.takeWhile_append_dropWhile.symm, fun c hc ↦
    hblank c (List.mem_takeWhile_imp hc)⟩

theorem skips_dropSpaced? {literal : Text}
    (hblank : ∀ c : CodePoint, c.isBlank = true → p c = false)
    (hliteral : ∀ c ∈ literal, p c = false) (h : dropSpaced? literal t = some rest) :
    Skips p t rest :=
  (skips_trimLeft hblank t).trans ⟨literal, Text.dropLiteral?_eq_some_iff.mp h, hliteral⟩

theorem skips_dropWord? {word : Text}
    (hword : ∀ letter ∈ word, ∀ c, CodePoint.sameLetter letter c = true → p c = false)
    (h : dropWord? word t = some rest) : Skips p t rest := by
  obtain ⟨written, hwritten, rfl⟩ := dropWord?_eq_some_iff.mp h
  refine ⟨written, rfl, ?_⟩
  clear h
  induction hwritten with
  | nil => exact List.forall_mem_nil _
  | cons hletter _ ih =>
    obtain ⟨hfirst, hrest⟩ := List.forall_mem_cons.mp hword
    exact List.forall_mem_cons.mpr ⟨hfirst _ hletter, ih hrest⟩

theorem dropQuote?_eq_some_iff :
    dropQuote? t = some rest ↔ ∃ mark, isQuote mark = true ∧ t = mark :: rest := by
  cases t with
  | nil => simp [dropQuote?]
  | cons c t =>
    rw [dropQuote?]
    split
    · next hc =>
      constructor
      · rintro ⟨⟩
        exact ⟨c, hc, rfl⟩
      · rintro ⟨_, -, heq⟩
        rw [(List.cons.inj heq).2]
    · next hc =>
      constructor
      · rintro ⟨⟩
      · rintro ⟨mark, hmark, heq⟩
        exact absurd ((List.cons.inj heq).1 ▸ hmark) hc

theorem exists_of_dropWord?_cons {letter : CodePoint} {word : Text}
    (h : dropWord? (letter :: word) t = some rest) :
    ∃ c s, t = c :: s ∧ CodePoint.sameLetter letter c = true ∧ dropWord? word s = some rest := by
  cases t with
  | nil => cases h
  | cons c s =>
    rw [dropWord?] at h
    split at h
    · next hc => exact ⟨c, s, rfl, hc, h⟩
    · cases h

/-! ## What a letter is not -/

section Letters

variable {letter : CodePoint} (hletter : letter.between 0x61 0x7A = true)

include hletter

theorem sameLetter_of_isBlank {c : CodePoint} (hc : c.isBlank = true) :
    CodePoint.sameLetter letter c = false := by
  by_contra h
  rw [CodePoint.isBlank_of_sameLetter hletter (Bool.not_eq_false _ ▸ h)] at hc
  cases hc

theorem sameLetter_of_isQuote {c : CodePoint} (hc : isQuote c = true) :
    CodePoint.sameLetter letter c = false := by
  by_contra h
  rw [isQuote_of_sameLetter hletter (Bool.not_eq_false _ ▸ h)] at hc
  cases hc

theorem sameLetter_of_word {word : Text}
    (hword : ∀ other ∈ word, other.between 0x61 0x7A = true ∧ other ≠ letter) :
    ∀ other ∈ word, ∀ c, CodePoint.sameLetter other c = true →
      CodePoint.sameLetter letter c = false := by
  intro other hother c hc
  obtain ⟨hsmall, hne⟩ := hword other hother
  by_contra h
  exact hne (eq_of_sameLetter hsmall hletter hc (Bool.not_eq_false _ ▸ h))

end Letters

/-! ## What starts later ends later -/

/-- What is found later ends later, too. -/
def EndsInOrder (find : Text → Option (α × Text)) : Prop :=
  ∀ ⦃c t u v v' x y⦄, u <:+ t → find (c :: t) = some (v, x) → find u = some (v', y) → y <:+ x

/-- What starts with a character of a class and holds no other one ends in order. -/
theorem endsInOrder_of_first (p : CodePoint → Bool) {find : Text → Option (α × Text)}
    (h : ∀ ⦃t v x⦄, find t = some (v, x) → ∃ c s, t = c :: s ∧ p c = true ∧ Skips p s x) :
    EndsInOrder find := by
  intro c t u v v' x y hu hfirst hlater
  obtain ⟨_, _, heq, -, hskips⟩ := h hfirst
  obtain ⟨d, s, rfl, hd, hend⟩ := h hlater
  cases heq
  exact (hend.isSuffix.trans (List.suffix_cons d s)).trans (hskips.isSuffix_cons hu hd)

/-- What is found between the first two quotation marks of a text ends in order. -/
theorem endsInOrder_of_quotes {find : Text → Option (α × Text)}
    (h : ∀ ⦃t v x⦄, find t = some (v, x) → ∃ mark path mark', isQuote mark = true ∧
      isQuote mark' = true ∧ Unquoted path ∧ Skips isQuote t (mark :: (path ++ mark' :: x))) :
    EndsInOrder find := by
  intro c t u v v' x y hu hfirst hlater
  obtain ⟨mark, path, close, -, hclose, hpath, hskips⟩ := h hfirst
  obtain ⟨mark', path', close', hmark', hclose', -, hskips'⟩ := h hlater
  have hopened : mark' :: (path' ++ close' :: y) <:+ mark :: (path ++ close :: x) :=
    hskips.isSuffix_cons (hskips'.isSuffix.trans (hu.trans (List.suffix_cons c t))) hmark'
  have hinside : path' ++ close' :: y <:+ path ++ close :: x := by
    rcases List.suffix_cons_iff.mp hopened with heq | hlater
    · exact (List.cons.inj heq).2 ▸ List.suffix_rfl
    · exact (List.suffix_cons _ _).trans hlater
  have hclosed : close' :: y <:+ close :: x :=
    Skips.isSuffix_cons ⟨path, rfl, hpath⟩ ((List.suffix_append path' _).trans hinside) hclose'
  rcases List.suffix_cons_iff.mp hclosed with heq | hlater
  · exact (List.cons.inj heq).2 ▸ List.suffix_rfl
  · exact (List.suffix_cons _ _).trans hlater

/-- An opening starts with the letter of its name, and holds it only once. -/
theorem exists_of_registrationOpening {before : Option CodePoint} {v : Unit}
    (h : registrationOpening before t = some (v, rest)) :
    ∃ c s, t = c :: s ∧ CodePoint.sameLetter 'r' c = true ∧
      Skips (CodePoint.sameLetter 'r') s rest := by
  have hr : (CodePoint.ofChar 'r').between 0x61 0x7A = true := by decide
  have hblank (c : CodePoint) (hc : c.isBlank = true) := sameLetter_of_isBlank hr hc
  unfold registrationOpening at h
  split at h
  · cases h
  · simp only [Option.bind_eq_bind, Option.bind_eq_some_iff, Option.pure_def, Option.some.injEq,
      Prod.mk.injEq] at h
    obtain ⟨called, hname, opened, hopened, rest, hrest, -, rfl⟩ := h
    obtain ⟨c, s, rfl, hc, hletters⟩ := exists_of_dropWord?_cons hname
    exact ⟨c, s, rfl, hc, (skips_dropWord? (sameLetter_of_word hr (by decide)) hletters).trans
      ((skips_dropSpaced? hblank (by decide) hopened).trans
        (skips_dropSpaced? hblank (by decide) hrest))⟩

theorem registrationOpening_none {before : Option CodePoint} {found : Unit × Text}
    (h : registrationOpening before t = some found) : registrationOpening none t = some found := by
  rw [registrationOpening] at h
  split at h
  · cases h
  · exact h

theorem endsInOrder_registrationOpening : EndsInOrder (registrationOpening none) :=
  endsInOrder_of_first (CodePoint.sameLetter 'r') fun _ _ _ h ↦ exists_of_registrationOpening h

theorem endsInOrder_methodField : EndsInOrder (methodField none) := by
  have hm : (CodePoint.ofChar 'm').between 0x61 0x7A = true := by decide
  have hblank (c : CodePoint) (hc : c.isBlank = true) := sameLetter_of_isBlank hm hc
  have hquote {t rest : Text} (h : dropQuote? t = some rest) :
      Skips (CodePoint.sameLetter 'm') t rest := by
    obtain ⟨mark, hmark, rfl⟩ := dropQuote?_eq_some_iff.mp h
    exact ⟨[mark], rfl, List.forall_mem_singleton.mpr (sameLetter_of_isQuote hm hmark)⟩
  refine endsInOrder_of_first (CodePoint.sameLetter 'm') fun t v x h ↦ ?_
  simp only [methodField, dropFieldName?, Option.bind_eq_bind, Option.bind_eq_some_iff,
    Option.pure_def, Option.some.injEq, Prod.exists, Prod.mk.injEq] at h
  obtain ⟨named, ⟨called, hname, hcolon⟩, opened, hopened, verb, after, hverb, closed, hclosed, -,
    rfl⟩ := h
  obtain ⟨c, s, rfl, hc, hletters⟩ := exists_of_dropWord?_cons hname
  obtain ⟨word, hword, hdrop⟩ := List.exists_of_findSome?_eq_some hverb
  obtain ⟨_, hafter, heq⟩ := Option.map_eq_some_iff.mp hdrop
  cases heq
  have hverbs : ∀ word ∈ verbWords, ∀ other ∈ word,
      other.between 0x61 0x7A = true ∧ other ≠ 'm' := by decide
  have hstart := skips_dropWord? (sameLetter_of_word hm (by decide)) hletters
  have hopening := ((skips_dropSpaced? hblank (by decide) hcolon).trans
    (skips_trimLeft hblank named)).trans (hquote hopened)
  have hending := (skips_dropWord? (sameLetter_of_word hm (hverbs word hword)) hafter).trans
    (hquote hclosed)
  exact ⟨c, s, rfl, hc, hstart.trans (hopening.trans hending)⟩

theorem exists_of_quoted? {path : Text} (h : quoted? t = some (path, rest)) :
    ∃ mark mark', isQuote mark = true ∧ isQuote mark' = true ∧
      t = mark :: (path ++ mark' :: rest) := by
  simp only [quoted?, Option.bind_eq_bind, Option.bind_eq_some_iff, Option.pure_def,
    Option.some.injEq, Prod.mk.injEq] at h
  obtain ⟨inside, hinside, closed, hclosed, rfl, rfl⟩ := h
  obtain ⟨mark, hmark, rfl⟩ := dropQuote?_eq_some_iff.mp hinside
  obtain ⟨mark', hmark', hend⟩ := dropQuote?_eq_some_iff.mp hclosed
  exact ⟨mark, mark', hmark, hmark', by rw [← hend, List.takeWhile_append_dropWhile]⟩

theorem quotedNonempty?_eq_some_iff {path : Text} :
    quotedNonempty? t = some (path, rest) ↔ quoted? t = some (path, rest) ∧ path ≠ [] := by
  rw [quotedNonempty?]
  constructor
  · intro h
    obtain ⟨found, hquoted, h⟩ := Option.bind_eq_some_iff.mp h
    dsimp only at h
    split at h
    · cases h
    · next hne =>
      cases h
      exact ⟨hquoted, mt List.isEmpty_iff.mpr hne⟩
  · rintro ⟨hquoted, hne⟩
    rw [hquoted]
    exact if_neg (mt List.isEmpty_iff.mp hne)

theorem exists_of_quotedNonempty? {path : Text} (h : quotedNonempty? t = some (path, rest)) :
    ∃ mark mark', isQuote mark = true ∧ isQuote mark' = true ∧
      t = mark :: (path ++ mark' :: rest) :=
  exists_of_quoted? (quotedNonempty?_eq_some_iff.mp h).1

/-- The path of an address field stands between the first quotation mark after its start and the
next one. -/
theorem exists_of_urlField {path : Text} (h : urlField none t = some (path, rest)) :
    ∃ mark mark', isQuote mark = true ∧ isQuote mark' = true ∧ Unquoted path ∧
      Skips isQuote t (mark :: (path ++ mark' :: rest)) := by
  obtain ⟨named, hnamed, hpath⟩ := Option.bind_eq_some_iff.mp h
  obtain ⟨called, hname, hcolon⟩ := Option.bind_eq_some_iff.mp hnamed
  obtain ⟨mark, mark', hmark, hmark', htrim⟩ := exists_of_quotedNonempty? hpath
  have hletters : ∀ letter ∈ Text.ofString "url", ∀ c, CodePoint.sameLetter letter c = true →
      isQuote c = false := fun letter hletter c ↦
    isQuote_of_sameLetter (by revert letter; decide)
  have hskips := (skips_dropWord? hletters hname).trans
    ((skips_dropSpaced? (fun _ ↦ isQuote_of_isBlank) (by decide) hcolon).trans
      (skips_trimLeft (fun _ ↦ isQuote_of_isBlank) named))
  exact ⟨mark, mark', hmark, hmark', (quotedNonempty?_spec hpath).2, htrim ▸ hskips⟩

theorem endsInOrder_urlField : EndsInOrder (urlField none) :=
  endsInOrder_of_quotes fun _ path _ h ↦
    let ⟨mark, mark', hpath⟩ := exists_of_urlField h
    ⟨mark, path, mark', hpath⟩

theorem endsInOrder_registrationClosing : EndsInOrder (registrationClosing none) := by
  refine endsInOrder_of_first (decide <| · = CodePoint.ofChar '\x7d') fun t v x h ↦ ?_
  obtain ⟨closed, hclosed, hrest⟩ := Option.bind_eq_some_iff.mp h
  obtain ⟨rest, hrest, heq⟩ := Option.bind_eq_some_iff.mp hrest
  cases heq
  refine ⟨_, closed, Text.dropLiteral?_eq_some_iff.mp hclosed, decide_eq_true rfl,
    skips_dropSpaced? (fun c hc ↦ decide_eq_false ?_) (by decide) hrest⟩
  rintro rfl
  revert hc
  decide

/-! ## The first place is the right one -/

/-- What cannot go on after the first place cannot go on after a later one, so a search need not go
back. -/
theorem findSome?_tails_bind {find : Text → Option (α × Text)} (hfind : EndsInOrder find)
    {next : α × Text → Option β}
    (hnext : ∀ v v' x y, y <:+ x → next (v, x) = none → next (v', y) = none) (t : Text) :
    (t.tails.findSome? fun u ↦ (find u).bind next) = (t.tails.findSome? find).bind next := by
  induction t with
  | nil =>
    rw [List.tails, List.findSome?_singleton, List.findSome?_singleton]
  | cons c t ih =>
    rw [List.tails_cons, List.findSome?_cons, List.findSome?_cons]
    cases hfirst : find (c :: t) with
    | none => exact ih
    | some found =>
      dsimp only [Option.bind_some]
      cases hgiven : next found with
      | some b => rfl
      | none =>
        refine List.findSome?_eq_none_iff.mpr fun u hu ↦ ?_
        refine Option.bind_eq_none_iff.mpr fun later hlater ↦ ?_
        exact hnext _ _ _ _ (hfind ((List.mem_tails _ _).mp hu) hfirst hlater) hgiven

/-- What cannot be found in a text cannot be found in an end of it. -/
def Inherits (f : Text → Option β) : Prop := ∀ ⦃t u⦄, u <:+ t → f t = none → f u = none

theorem inherits_findSome?_tails (f : Text → Option β) : Inherits fun t ↦ t.tails.findSome? f := by
  intro t u hu h
  rw [List.findSome?_eq_none_iff] at h ⊢
  intro tail htail
  exact h tail ((List.mem_tails _ _).mpr (((List.mem_tails _ _).mp htail).trans hu))

/-- A pattern that can be looked for anywhere, and of which the first place is the right one. -/
structure IsField (p : Pattern α) : Prop where
  /-- The pattern does not look at the character before. -/
  anywhere : ∀ before t, p before t = p none t
  /-- There is something to recognise. -/
  nil : p none [] = none
  /-- What starts later ends later. -/
  inOrder : EndsInOrder (p none)

theorem IsField.same {p : Pattern α} (hp : IsField p) (before before' : Option CodePoint)
    (t : Text) : p before t = p before' t :=
  (hp.anywhere before t).trans (hp.anywhere before' t).symm

theorem IsField.exists_of_first? {p : Pattern α} (hp : IsField p) {found : α × Text}
    (h : p.first? none t = some found) : ∃ tail, tail <:+ t ∧ p none tail = some found := by
  obtain ⟨tail, htail, before, hfound⟩ := Pattern.exists_of_first? h
  exact ⟨tail, htail, hp.same none before tail ▸ hfound⟩

theorem IsField.first?_eq {p : Pattern α} (hp : IsField p) (t : Text) :
    p.first? none t = t.tails.findSome? (p none) := by
  induction t with
  | nil => rw [List.tails, List.findSome?_singleton, hp.nil, Pattern.first?]
  | cons c t ih =>
    rw [Pattern.first?, List.tails_cons, List.findSome?_cons, ← ih,
      Pattern.first?_congr hp.same _ none]
    cases p none (c :: t) <;> rfl

/-- A field and what can be found after it, searched for at every place or only after the first. -/
theorem IsField.findSome?_bind {p : Pattern α} (hp : IsField p) {next : α × Text → Option β}
    (hnext : ∀ v v' x y, y <:+ x → next (v, x) = none → next (v', y) = none) (t : Text) :
    (t.tails.findSome? fun u ↦ (p none u).bind next) = (p.first? none t).bind next := by
  rw [findSome?_tails_bind hp.inOrder hnext, hp.first?_eq]

theorem IsField.inherits {p : Pattern α} (hp : IsField p) {next : α × Text → Option β}
    (hnext : ∀ v v' x y, y <:+ x → next (v, x) = none → next (v', y) = none) :
    Inherits fun t ↦ (p.first? none t).bind next := by
  intro t u hu h
  dsimp only at h ⊢
  rw [← hp.findSome?_bind hnext] at h ⊢
  exact inherits_findSome?_tails _ hu h

theorem isField_methodField : IsField methodField := ⟨fun _ _ ↦ rfl, rfl, endsInOrder_methodField⟩

theorem isField_urlField : IsField urlField := ⟨fun _ _ ↦ rfl, rfl, endsInOrder_urlField⟩

theorem isField_registrationClosing : IsField registrationClosing :=
  ⟨fun _ _ ↦ rfl, rfl, endsInOrder_registrationClosing⟩

/-! ## What follows an opening -/

/-- What follows the first closing. -/
def closing? (t : Text) : Option Text := (registrationClosing.first? none t).map Prod.snd

/-- The first path, and what follows the first closing after it. -/
def address? (t : Text) : Option (Text × Text) :=
  (urlField.first? none t).bind fun (path, t) ↦ (closing? t).map fun rest ↦ (path, rest)

theorem finish_eq (t : Text) :
    Registration.finish t = (methodField.first? none t).bind fun (verb, t) ↦
      (address? t).map fun (path, rest) ↦ (⟨verb, path⟩, rest) := by
  simp only [Registration.finish, address?, closing?, Option.bind_eq_bind, Option.pure_def,
    Option.map_eq_bind, Option.bind_assoc, Function.comp_def, Option.bind_some]

/-- A registration is an opening that starts a word, and what is found after it. -/
theorem registration_eq_finish (before : Option CodePoint) (t : Text) :
    registration before t = if before.any CodePoint.isWord then none else
      (registrationOpening none t).bind fun (_, t) ↦ Registration.finish t := by
  rw [registration, registrationOpening, registrationOpening, atBoundary]
  cases before.any CodePoint.isWord <;> rfl

theorem inherits_closing? : Inherits closing? := by
  intro t u hu h
  rw [closing?, Option.map_eq_none_iff, isField_registrationClosing.first?_eq] at h ⊢
  exact inherits_findSome?_tails _ hu h

theorem inherits_address? : Inherits address? :=
  isField_urlField.inherits fun _ _ _ _ hsuffix h ↦
    Option.map_eq_none_iff.mpr (inherits_closing? hsuffix (Option.map_eq_none_iff.mp h))

/-- When nothing can follow an opening, nothing can follow a later one. -/
theorem inherits_finish : Inherits Registration.finish := by
  rw [funext finish_eq]
  exact isField_methodField.inherits fun _ _ _ _ hsuffix h ↦
    Option.map_eq_none_iff.mpr (inherits_address? hsuffix (Option.map_eq_none_iff.mp h))

/-! ## The expression of a registration -/

/-- The opening of a registration. -/
def openingRow : List Expression :=
  [word "route", blanks, literal "(", blanks, literal "\x7b"]

/-- A method field with a supported verb. -/
def methodRow : List Expression :=
  [word "method", blanks, literal ":", blanks, quote, .group 1 (anyOf (verbWords.map word)), quote]

/-- An address field with a path. -/
def urlRow : List Expression :=
  [word "url", blanks, literal ":", blanks, quote,
    .group 2 (.andThen (.char (!isQuote ·)) (.greedy (!isQuote ·))), quote]

/-- The closing of a registration. -/
def closingRow : List Expression := [literal "\x7d", blanks, literal ")"]

/-- A registration: an opening that starts a word, a method field, an address field and a closing,
with any text between them. -/
def registrationExpression : Expression :=
  inRow (.boundary :: (openingRow ++
    gap :: (methodRow ++ gap :: (urlRow ++ gap :: closingRow))))

theorem reads_openingRow :
    Reads (inRow openingRow) (leaving fun t ↦ (registrationOpening none t).map Prod.snd) := by
  have hoptions := reads_spaced (a := '(') (reads_spaced_last (a := '\x7b') (by decide) [])
    (by decide) []
  refine ((reads_word "route").cons hoptions).congr fun w ↦ ?_
  simp only [leaving, registrationOpening, atBoundary, Option.any_none, Bool.not_false,
    Bool.not_true, Bool.false_eq_true, if_false, Option.bind_eq_bind, Option.pure_def,
    Option.map_eq_bind, Option.bind_assoc, Function.comp_def, Option.bind_some]
  rfl

theorem reads_closingRow :
    Reads (inRow closingRow) (leaving fun t ↦ (registrationClosing none t).map Prod.snd) := by
  refine ((reads_literal "\x7d").andThen_leaving
    (reads_spaced_last (a := ')') (by decide) [])).congr fun w ↦ ?_
  simp only [leaving, registrationClosing, Option.bind_eq_bind, Option.pure_def,
    Option.map_eq_bind, Option.bind_assoc, Function.comp_def, Option.bind_some]
  rfl

theorem reads_field (name : Text) {l : List Expression} {number : Nat}
    {find : Text → Option (Text × Text)} (hl : Reads (inRow l) (keeping number find))
    (hblank : AvoidsFirst CodePoint.isBlank (keeping number find)) :
    Reads (inRow (word name :: blanks :: literal ":" :: blanks :: l)) (keeping number fun t ↦
      (dropFieldName? name t).bind fun t ↦ find t.trimLeft) := by
  have hargument := reads_spaced (a := ':') (hl.blanks_cons hblank) (by decide) []
  refine ((reads_word name).cons hargument).congr fun w ↦ ?_
  simp only [leaving, keeping, dropFieldName?, Option.bind_eq_bind, Option.map_eq_bind,
    Option.bind_assoc, Function.comp_def, Option.bind_some]
  rfl

theorem reads_urlRow : Reads (inRow urlRow) (keeping 2 (urlField none)) :=
  reads_field "url" reads_quotedNonempty avoidsFirst_quotedNonempty

/-- A supported verb between quotation marks, and what follows it. -/
def quotedVerb? (t : Text) : Option (Text × Text) := do
  let t ← dropQuote? t
  let (verb, t) ← anyWord? verbWords t
  let rest ← dropQuote? t
  return (verb, rest)

theorem reads_methodRow : Reads (inRow methodRow) (keeping 1 (methodField none)) := by
  have hverb : Reads (inRow [quote, .group 1 (anyOf (verbWords.map word)), quote])
      (keeping 1 quotedVerb?) := by
    refine (reads_quote.cons (reads_verb.cons reads_quote.last)).congr fun w ↦ ?_
    simp only [leaving, keeping, quotedVerb?, Option.bind_eq_bind, Option.pure_def,
      Option.map_eq_bind, Option.bind_assoc, Function.comp_def, Option.bind_some]
  refine (reads_field "method" hverb fun c t groups hc ↦ ?_).congr fun w ↦ ?_
  · simp [keeping, quotedVerb?, dropQuote?, isQuote_of_isBlank hc]
  · rfl

theorem head?_ways_gap_closing (whole : Text) (w : Way) :
    ((inRow (gap :: closingRow)).ways whole w).head? = leaving closing? w := by
  have hclosing := reads_closingRow whole
  rw [inRow, head?_ways_gap, leaving, closing?, isField_registrationClosing.first?_eq]
  simp only [hclosing, Option.head?_toList, leaving, List.map_findSome?, Option.map_map,
    Function.comp_def]

/-- A gap, a field and what can follow it: the first field is taken. -/
theorem head?_ways_gap_field {p : Pattern Text} (hp : IsField p) {l l' : List Expression}
    {number : Nat} (hl : Reads (inRow l) (keeping number (p none))) {whole : Text}
    {next : Way → Option Way} (hl' : ∀ w, ((inRow l').ways whole w).head? = next w)
    (hnext : ∀ w w', w'.rest <:+ w.rest → next w = none → next w' = none) (w : Way) :
    ((inRow (gap :: (l ++ l'))).ways whole w).head? =
      (p.first? none w.rest).bind fun (found, rest) ↦ next ⟨rest, (number, found) :: w.groups⟩ := by
  rw [inRow, head?_ways_gap]
  simp only [head?_ways_inRow_append hl, hl', keeping, Option.bind_map, Function.comp_def]
  exact hp.findSome?_bind (fun _ _ _ _ hsuffix ↦ hnext _ _ hsuffix) _

theorem head?_ways_gap_url (whole : Text) (w : Way) :
    ((inRow (gap :: (urlRow ++ gap :: closingRow))).ways whole w).head? = keeping 2 address? w := by
  rw [head?_ways_gap_field isField_urlField reads_urlRow (head?_ways_gap_closing whole)]
  · simp only [keeping, leaving, address?, Option.map_bind, Option.map_map, Function.comp_def]
  · intro w w' hsuffix h
    exact Option.map_eq_none_iff.mpr (inherits_closing? hsuffix (Option.map_eq_none_iff.mp h))

theorem head?_ways_gap_method (whole : Text) (w : Way) :
    ((inRow (gap :: (methodRow ++ gap :: (urlRow ++ gap :: closingRow)))).ways whole w).head? =
      declaring Registration.finish w := by
  rw [head?_ways_gap_field isField_methodField reads_methodRow (head?_ways_gap_url whole)]
  · simp only [keeping, declaring, finish_eq, Option.map_bind, Option.map_map, Function.comp_def]
  · intro w w' hsuffix h
    exact Option.map_eq_none_iff.mpr (inherits_address? hsuffix (Option.map_eq_none_iff.mp h))

/-- **A registration is what its expression matches**: backtracking takes the first method field,
the first address field after it and the first closing after that. -/
theorem registrationExpression_pattern (before : Option CodePoint) (t : Text) :
    registrationExpression.pattern before t =
      (registration before t).map fun (d, rest) ↦ ([(2, d.path), (1, d.verb)], rest) := by
  have hways : ((inRow (openingRow ++ gap :: (methodRow ++ gap :: (urlRow ++
      gap :: closingRow)))).ways (before.toList ++ t) ⟨t, []⟩).head? =
      (registrationOpening none t).bind fun (_, t) ↦ declaring Registration.finish ⟨t, []⟩ := by
    rw [head?_ways_inRow_append reads_openingRow]
    simp only [head?_ways_gap_method, leaving, Option.bind_map, Function.comp_def]
  rw [pattern, registrationExpression, head?_ways_boundary fun hword ↦ ?_, hways,
    registration_eq_finish]
  · cases before.any CodePoint.isWord with
    | true => rfl
    | false =>
      simp only [Bool.false_eq_true, if_false, declaring, Option.map_bind, Option.map_map,
        Function.comp_def]
  · have hnone : registrationOpening none t = none := by
      have hdrop : dropWord? "route" t = none := dropWord?_of_not_isWord (by decide) _ hword
      rw [registrationOpening, hdrop]
      rfl
    rw [hways, hnone, Option.bind_none]

/-! ## The forward pass -/

theorem leavesEnd_urlField : urlField.LeavesEnd := by
  intro before t path rest h
  obtain ⟨named, hnamed, hpath⟩ := Option.bind_eq_some_iff.mp h
  exact (quotedNonempty?_eq_some hpath).2.trans
    ((Text.trimLeft_isSuffix _).trans (dropFieldName?_isSuffix hnamed))

theorem leavesEnd_registrationClosing : registrationClosing.LeavesEnd := by
  intro before t v rest h
  obtain ⟨closed, hclosed, hafter⟩ := Option.bind_eq_some_iff.mp h
  obtain ⟨rest, hrest, heq⟩ := Option.bind_eq_some_iff.mp hafter
  cases heq
  exact (dropSpaced?_isSuffix hrest).trans (Text.dropLiteral?_isSuffix hclosed)

theorem finish_isSuffix {d : Declaration} (h : Registration.finish t = some (d, rest)) :
    rest <:+ t := by
  simp only [Registration.finish, Option.bind_eq_bind, Option.bind_eq_some_iff, Prod.exists,
    Option.pure_def, Option.some.injEq, Prod.mk.injEq] at h
  obtain ⟨verb, called, hverb, path, after, hpath, _, closed, hclosed, -, rfl⟩ := h
  exact (leavesEnd_registrationClosing.first? hclosed).trans
    ((leavesEnd_urlField.first? hpath).trans (leavesEnd_methodField.first? hverb))

theorem leavesEnd_registration : registration.LeavesEnd := by
  intro before t d rest h
  obtain ⟨⟨v, t'⟩, hopening, hfinish⟩ := Option.bind_eq_some_iff.mp h
  exact (finish_isSuffix hfinish).trans (leavesEnd_registrationOpening hopening)

theorem registration_shortens {before : Option CodePoint} {d : Declaration}
    (h : registration before t = some (d, rest)) : rest.length < t.length := by
  obtain ⟨⟨v, t'⟩, hopening, hfinish⟩ := Option.bind_eq_some_iff.mp h
  obtain ⟨c, s, rfl, -, hskips⟩ := exists_of_registrationOpening hopening
  exact Nat.lt_succ_of_le ((finish_isSuffix hfinish).trans hskips.isSuffix).length_le

/-- What is found after an opening that ends at an offset, each part by a search from the end of the
one before: the first method field, the first address field and the first closing. The offset that
is given is that of the end of the closing. -/
def after? (content : Text) (k : Nat) : Option (Declaration × Nat) := do
  let method ← methodField.from? content k
  let url ← urlField.from? content method.stop
  let closing ← registrationClosing.from? content url.stop
  return (⟨method.value, url.value⟩, closing.stop)

/-- The next registration at or after an offset: the first opening, and what is found after it. -/
def next? (content : Text) (k : Nat) : Option (Occurrence Declaration) := do
  let opening ← registrationOpening.from? content k
  let (d, stop) ← after? content opening.stop
  return ⟨opening.start, stop - opening.start, d⟩

theorem le_of_after? {content : Text} {k stop : Nat} {d : Declaration}
    (h : after? content k = some (d, stop)) : k ≤ stop ∧ stop ≤ content.length := by
  simp only [after?, Option.bind_eq_bind, Option.bind_eq_some_iff, Option.pure_def,
    Option.some.injEq, Prod.mk.injEq] at h
  obtain ⟨method, hmethod, url, hurl, closing, hclosing, -, rfl⟩ := h
  have h₁ := Pattern.from?_eq_some leavesEnd_methodField hmethod
  have h₂ := Pattern.from?_eq_some leavesEnd_urlField hurl
  have h₃ := Pattern.from?_eq_some leavesEnd_registrationClosing hclosing
  omega

theorem next?_stop {content : Text} {k : Nat} {o : Occurrence Declaration}
    (h : next? content k = some o) : k < o.stop ∧ o.stop ≤ content.length := by
  simp only [next?, Option.bind_eq_bind, Option.bind_eq_some_iff, Option.pure_def,
    Option.some.injEq, Prod.exists] at h
  obtain ⟨opening, hopening, d, stop, hafter, rfl⟩ := h
  obtain ⟨hk, -, -, -, hat⟩ := Pattern.from?_eq_some leavesEnd_registrationOpening hopening
  obtain ⟨-, -, hfound⟩ := Pattern.at?_eq_some leavesEnd_registrationOpening hat
  obtain ⟨c, s, hdrop, -, hskips⟩ := exists_of_registrationOpening hfound
  have hlt := hskips.isSuffix.length_le
  have hlength := congrArg List.length hdrop
  rw [List.length_drop] at hlt
  rw [List.length_drop, List.length_cons] at hlength
  obtain ⟨hle, hstop⟩ := le_of_after? hafter
  simp only [Occurrence.stop] at hle hlt ⊢
  omega

/-- The registrations from an offset on: after each, the pass goes on from its end, and it ends when
a part is missing. -/
def forwardFrom (content : Text) (k : Nat) : List (Occurrence Declaration) :=
  match _ : next? content k with
  | none => []
  | some o => o :: forwardFrom content o.stop
termination_by content.length - k
decreasing_by
  have hstop := next?_stop ‹next? content k = some o›
  omega

variable {content : Text} {k : Nat}

theorem IsField.first?_drop {p : Pattern α} (hp : IsField p) (hend : p.LeavesEnd) (content : Text)
    (k : Nat) : p.first? none (content.drop k) =
      (p.from? content k).map fun o ↦ (o.value, content.drop o.stop) := by
  rw [← Pattern.first?_drop hend]
  exact Pattern.first?_congr hp.same _ _ _

theorem finish_drop (content : Text) (k : Nat) :
    Registration.finish (content.drop k) =
      (after? content k).map fun (d, stop) ↦ (d, content.drop stop) := by
  simp only [Registration.finish, after?,
    isField_methodField.first?_drop leavesEnd_methodField,
    isField_urlField.first?_drop leavesEnd_urlField,
    isField_registrationClosing.first?_drop leavesEnd_registrationClosing,
    Option.bind_eq_bind, Option.pure_def, Option.bind_map, Option.map_bind, Function.comp_def,
    Option.map_some]

/-- A registration at an offset is an opening there and what is found after it. -/
theorem at?_registration (content : Text) (k : Nat) :
    registration.at? content k = (registrationOpening.at? content k).bind fun opening ↦
      (after? content opening.stop).map fun (d, stop) ↦
        ⟨opening.start, stop - opening.start, d⟩ := by
  have hwhole (before : Option CodePoint) (t : Text) : registration before t =
      (registrationOpening before t).bind fun (_, t) ↦ Registration.finish t := rfl
  cases hat : registrationOpening.at? content k with
  | none =>
    rw [Pattern.at?, hwhole, Option.map_eq_none_iff.mp hat]
    rfl
  | some opening =>
    obtain ⟨hstart, -, hfound⟩ := Pattern.at?_eq_some leavesEnd_registrationOpening hat
    rw [Pattern.at?, hwhole, hfound, Option.bind_some, Option.bind_some, hstart]
    dsimp only
    rw [finish_drop]
    cases hafter : after? content opening.stop with
    | none => rfl
    | some found =>
      have hstop := (le_of_after? hafter).2
      simp only [Option.map_some, List.length_drop]
      congr 2
      omega

/-- When nothing can follow an opening, there is no registration after it. -/
theorem from?_registration_of_none {opening : Occurrence Unit}
    (hopening : registrationOpening.at? content k = some opening)
    (hafter : after? content opening.stop = none) :
    registration.from? content (k + 1) = none := by
  obtain ⟨-, -, hfound⟩ := Pattern.at?_eq_some leavesEnd_registrationOpening hopening
  have hfinish : Registration.finish (content.drop opening.stop) = none := by
    rw [finish_drop, hafter, Option.map_none]
  refine Pattern.from?_eq_none_iff.mpr fun i hk hi ↦ ?_
  rw [at?_registration]
  refine Option.bind_eq_none_iff.mpr fun later hlater ↦ Option.map_eq_none_iff.mpr ?_
  obtain ⟨-, -, hlater⟩ := Pattern.at?_eq_some leavesEnd_registrationOpening hlater
  have hsuffix : content.drop i <:+ content.drop (k + 1) :=
    List.drop_suffix_drop_left content hk
  rw [List.drop_eq_getElem_cons (by omega)] at hfound
  have hend := endsInOrder_registrationOpening hsuffix (registrationOpening_none hfound)
    (registrationOpening_none hlater)
  have hnone := inherits_finish hend hfinish
  rwa [finish_drop, Option.map_eq_none_iff] at hnone

/-- **The next registration is the one that the pass finds.** -/
theorem from?_registration (content : Text) (k : Nat) :
    registration.from? content k = next? content k := by
  induction hn : content.length - k generalizing k with
  | zero =>
    rw [next?, Pattern.from?_of_length_le (by omega), Pattern.from?_of_length_le (by omega)]
    rfl
  | succ n ih =>
    have hk : k < content.length := by omega
    have hlater := ih (k + 1) (by omega)
    rw [next?, Pattern.from?_of_lt hk, Pattern.from?_of_lt hk, at?_registration]
    cases hat : registrationOpening.at? content k with
    | none => exact hlater
    | some opening =>
      dsimp only [Option.bind_some, Option.some_or, Option.bind_eq_bind]
      cases hafter : after? content opening.stop with
      | none => exact from?_registration_of_none hat hafter
      | some found => rfl

theorem occurrencesFrom_registration (content : Text) (k : Nat) :
    registration.occurrencesFrom 0 k (content.take k).getLast? (content.drop k) =
      forwardFrom content k := by
  fun_induction forwardFrom content k with
  | case1 k hnone =>
    rw [Pattern.occurrencesFrom_drop leavesEnd_registration registration_shortens,
      from?_registration, hnone]
  | case2 k o hsome ih =>
    rw [Pattern.occurrencesFrom_drop leavesEnd_registration registration_shortens,
      from?_registration, hsome, ← ih]

/-- **Backtracking finds the registrations of one forward pass.** The matches of the expression are
those of the pass, with their verbs, their paths and their ends, and so are the registrations that
are recognised. When the pass ends, the expression matches nowhere after. -/
theorem registrations_forward (content : Text) :
    ((registrationExpression.matchesIn content).map fun o ↦
        (o.start, o.value.lookup 1, o.value.lookup 2, o.stop)) =
      ((forwardFrom content 0).map fun o ↦
        (o.start, some o.value.verb, some o.value.path, o.stop)) ∧
    registration.occurrences content = forwardFrom content 0 ∧
    ∀ k, next? content k = none → registrationExpression.pattern.from? content k = none := by
  have hpattern : registrationExpression.pattern = fun before t ↦
      (registration before t).map fun (d, rest) ↦ ([(2, d.path), (1, d.verb)], rest) :=
    funext fun before ↦ funext fun t ↦ registrationExpression_pattern before t
  have hmatches : registrationExpression.matchesIn content =
      (registration.occurrences content).map fun o ↦
        ⟨o.start, o.length, [(2, o.value.path), (1, o.value.verb)]⟩ := by
    rw [matchesIn, hpattern]
    exact Pattern.occurrencesFrom_map registration (fun d ↦ [(2, d.path), (1, d.verb)]) 0 0 none
      content
  have hoccurrences : registration.occurrences content = forwardFrom content 0 :=
    occurrencesFrom_registration content 0
  refine ⟨?_, hoccurrences, fun k hnone ↦ ?_⟩
  · rw [hmatches, hoccurrences, List.map_map]
    rfl
  · rw [← from?_registration, Pattern.from?_eq_none_iff] at hnone
    refine Pattern.from?_eq_none_iff.mpr fun i hk hi ↦ ?_
    rw [Pattern.at?, registrationExpression_pattern,
      Option.map_eq_none_iff.mp (hnone i hk hi)]
    rfl

end Declaration

end RouteCatalog
