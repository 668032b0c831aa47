import RouteCatalog.Proofs.Route.Forward
import RouteCatalog.Proofs.Route.Report
import RouteCatalog.Proofs.Text.SelfDelimiting

/-!
# Code after the declarations

Fluent calls and registrations end themselves: whether one is recognised is settled by its own
characters. And what starts later never ends earlier (`EndsInOrder`), so a declaration that is left
unfinished at the end of a text has no finished one after its start. So code that is put after a
text completes no declaration that could take the place of one in the text
(`incremental_of_endsInOrder`), and the endpoints of the text come first among those of the longer
one (`extract_append_isPrefix`).
-/

namespace RouteCatalog

/-! ## Searches that end in order -/

namespace Declaration

variable {α β : Type} {f : Text → Option (α × Text)} {g : α → Text → Option (β × Text)}
  {p : Pattern α} {t u x y rest : Text}

theorem EndsInOrder.isSuffix (hf : EndsInOrder f) {v v' : α} (hu : u <:+ t)
    (ht : f t = some (v, x)) (hlater : f u = some (v', y)) : y <:+ x := by
  cases t with
  | nil =>
    obtain rfl := List.suffix_nil.mp hu
    cases ht.symm.trans hlater
    exact List.suffix_rfl
  | cons c t =>
    rcases List.suffix_cons_iff.mp hu with rfl | hu
    · cases ht.symm.trans hlater
      exact List.suffix_rfl
    · exact hf hu ht hlater

theorem IsField.isSuffix_of_first? (hp : IsField p) {v v' : α}
    (hfirst : p.first? none t = some (v, x)) (hu : u <:+ t)
    (hlater : p none u = some (v', y)) : y <:+ x := by
  induction t with
  | nil => cases hfirst
  | cons c t ih =>
    rw [Pattern.first?] at hfirst
    cases hfound : p none (c :: t) with
    | some found =>
      rw [hfound] at hfirst
      cases hfirst
      exact hp.inOrder.isSuffix hu hfound hlater
    | none =>
      rw [hfound, Pattern.first?_congr hp.same _ none] at hfirst
      rcases List.suffix_cons_iff.mp hu with rfl | hu
      · rw [hfound] at hlater
        cases hlater
      · exact ih hfirst hu

theorem IsField.endsInOrder_first? (hp : IsField p) : EndsInOrder (p.first? none) := by
  intro c t u v v' x y hu hfirst hlater
  obtain ⟨tail, htail, hfound⟩ := hp.exists_of_first? hlater
  exact hp.isSuffix_of_first? hfirst (htail.trans (hu.trans (List.suffix_cons c t))) hfound

/-- The first place of a field that ends itself is settled by the text up to its end. -/
theorem IsField.selfDelimiting_first? (hp : IsField p) (hself : SelfDelimiting (p none)) :
    SelfDelimiting (p.first? none) where
  nil := rfl
  leavesEnd h := by
    obtain ⟨tail, htail, hfound⟩ := hp.exists_of_first? h
    exact (hself.leavesEnd hfound).trans htail
  swap {x y v} h z := by
    induction x with
    | nil =>
      obtain ⟨tail, htail, hfound⟩ := hp.exists_of_first? h
      exact absurd htail.length_le (Nat.not_le_of_lt (hself.length_lt hfound))
    | cons c x ih =>
      rw [List.cons_append, Pattern.first?] at h ⊢
      cases hfound : p none (c :: (x ++ y)) with
      | some found =>
        rw [hfound] at h
        cases h
        rw [← List.cons_append] at hfound ⊢
        rw [hself.swap hfound]
      | none =>
        rw [hfound, Pattern.first?_congr hp.same _ none] at h
        have hrest := ih h
        cases hearlier : p none (c :: (x ++ z)) with
        | none => rwa [Pattern.first?_congr hp.same _ none]
        | some found =>
          -- It would end where the later place does, at the latest, so it was there before.
          obtain ⟨v', end'⟩ := found
          obtain ⟨tail, htail, hlater⟩ := hp.exists_of_first? hrest
          have hends : z <:+ end' :=
            hp.inOrder.isSuffix (htail.trans (List.suffix_cons c _)) hearlier hlater
          rw [← List.cons_append] at hearlier hfound
          obtain ⟨_, -, hfront⟩ := hself.of_append hearlier hends.length_le
          rw [hself.append hfront y] at hfound
          cases hfound

/-- **A pattern that ends itself, and where what starts later ends later, is incremental.** It may
look at the character before only to decline. -/
theorem incremental_of_endsInOrder
    (hbefore : ∀ before, (∀ t, p before t = none) ∨ ∀ t, p before t = p none t)
    (hself : SelfDelimiting (p none)) (horder : EndsInOrder (p none)) : p.Incremental := by
  have hsame {before : Option CodePoint} {t : Text} {found : α × Text}
      (h : p before t = some found) : ∀ t, p before t = p none t := by
    refine (hbefore before).resolve_left fun hdeclines ↦ ?_
    rw [hdeclines] at h
    cases h
  refine ⟨fun h ↦ hself.length_lt (hsame h _ ▸ h), fun more h ↦ ?_, ?_⟩
  · have heq := hsame h
    rw [heq] at h ⊢
    exact hself.append h more
  · intro before t more v rest hfails h
    have heq := hsame h
    rw [heq] at hfails h
    have hends : rest.length < more.length := by
      by_contra hlate
      obtain ⟨_, -, hfront⟩ := hself.of_append h (Nat.le_of_not_lt hlate)
      rw [hfront] at hfails
      cases hfails
    refine ⟨hends, fun tail htail before' ↦ ?_⟩
    by_contra hsome
    obtain ⟨⟨v', rest'⟩, hlater⟩ := Option.ne_none_iff_exists'.mp hsome
    rw [hsame hlater] at hlater
    obtain ⟨front, rfl⟩ := htail
    have hlonger : rest' ++ more <:+ rest :=
      horder.isSuffix ⟨front, (List.append_assoc _ _ _).symm⟩ h (hself.append hlater more)
    have := hlonger.length_le
    rw [List.length_append] at this
    omega

/-! ## Pieces -/

theorem selfDelimiting_dropLiteral? (a : CodePoint) (literal : Text) :
    SelfDelimiting (dropping (Text.dropLiteral? (a :: literal))) where
  nil := rfl
  leavesEnd h := Text.dropLiteral?_isSuffix (dropping_eq_some.mp h)
  swap h z := by
    have hfront := Text.dropLiteral?_eq_some_iff.mp (dropping_eq_some.mp h)
    rw [List.append_cancel_right hfront]
    exact dropping_eq_some.mpr (Text.dropLiteral?_eq_some_iff.mpr rfl)

theorem selfDelimiting_dropSpaced? (a : CodePoint) (literal : Text) :
    SelfDelimiting (dropping (dropSpaced? (a :: literal))) :=
  (selfDelimiting_dropLiteral? a literal).trimLeft

theorem selfDelimiting_dropWord? (letter : CodePoint) (word : Text) :
    SelfDelimiting (dropping (dropWord? (letter :: word))) where
  nil := rfl
  leavesEnd h := dropWord?_isSuffix (dropping_eq_some.mp h)
  swap h z := by
    obtain ⟨written, hwritten, hfront⟩ := dropWord?_eq_some_iff.mp (dropping_eq_some.mp h)
    rw [List.append_cancel_right hfront]
    exact dropping_eq_some.mpr (dropWord?_eq_some_iff.mpr ⟨written, hwritten, rfl⟩)

theorem selfDelimiting_dropQuote? : SelfDelimiting (dropping dropQuote?) where
  nil := rfl
  leavesEnd h := dropQuote?_isSuffix (dropping_eq_some.mp h)
  swap {x y v} h z := by
    obtain ⟨mark, hmark, hfront⟩ := dropQuote?_eq_some_iff.mp (dropping_eq_some.mp h)
    have hfront : x ++ y = [mark] ++ y := hfront
    obtain rfl := List.append_cancel_right hfront
    exact dropping_eq_some.mpr (dropQuote?_eq_some_iff.mpr ⟨mark, hmark, rfl⟩)

theorem selfDelimiting_verb : SelfDelimiting (anyWord? verbWords) where
  nil := rfl
  leavesEnd h := anyWord?_isSuffix h
  swap {x y verb} h z := by
    obtain ⟨word, hword, hdrop⟩ := List.exists_of_findSome?_eq_some h
    obtain ⟨_, hrest, heq⟩ := Option.map_eq_some_iff.mp hdrop
    cases heq
    obtain ⟨written, hwritten, hfront⟩ := dropWord?_eq_some_iff.mp hrest
    obtain rfl := List.append_cancel_right hfront
    rw [hwritten.length_eq, List.take_left]
    exact anyWord?_of_isVerb (isVerb_of_sameLetters hword hwritten) z

theorem selfDelimiting_quotedNonempty? : SelfDelimiting quotedNonempty? where
  nil := rfl
  leavesEnd h := (quotedNonempty?_eq_some h).2
  swap {x y path} h z := by
    obtain ⟨hne, hpath⟩ := quotedNonempty?_spec h
    obtain ⟨mark, mark', hmark, hmark', hfront⟩ := exists_of_quotedNonempty? h
    have hx : x ++ y = (mark :: (path ++ [mark'])) ++ y := by simpa using hfront
    rw [List.append_cancel_right hx]
    simpa using quotedNonempty?_of_unquoted hmark hmark' hne hpath z

/-! ## Fluent calls -/

theorem selfDelimiting_calledVerb? : SelfDelimiting calledVerb? := by
  have hargument (verb : Text) :
      SelfDelimiting fun t ↦ (dropSpaced? "(" t).bind fun t ↦
        (quotedNonempty? t.trimLeft).bind fun found ↦
          some ((⟨verb, found.1⟩ : Declaration), found.2) :=
    (selfDelimiting_dropSpaced? '(' []).after
      (selfDelimiting_quotedNonempty?.trimLeft.map (Declaration.mk verb))
  exact selfDelimiting_verb.bind hargument

theorem skips_verb {verb : Text} (h : anyWord? verbWords t = some (verb, rest)) :
    Skips isQuote t rest := by
  have hletters : ∀ word ∈ verbWords, ∀ letter ∈ word, letter.between 0x61 0x7A = true := by decide
  obtain ⟨word, hword, hdrop⟩ := List.exists_of_findSome?_eq_some h
  obtain ⟨_, hrest, heq⟩ := Option.map_eq_some_iff.mp hdrop
  cases heq
  exact skips_dropWord? (fun letter hletter c ↦
    isQuote_of_sameLetter (hletters word hword letter hletter)) hrest

/-- The path of a call stands between the first quotation mark after its start and the next one. -/
theorem exists_of_calledVerb? {d : Declaration} (h : calledVerb? t = some (d, rest)) :
    ∃ mark mark', isQuote mark = true ∧ isQuote mark' = true ∧ Unquoted d.path ∧
      Skips isQuote t (mark :: (d.path ++ mark' :: rest)) := by
  obtain ⟨⟨verb, called⟩, hverb, h⟩ := Option.bind_eq_some_iff.mp h
  obtain ⟨opened, hopened, h⟩ := Option.bind_eq_some_iff.mp h
  obtain ⟨⟨path, rest⟩, hpath, heq⟩ := Option.bind_eq_some_iff.mp h
  cases heq
  have hunquoted := (quotedNonempty?_spec hpath).2
  obtain ⟨mark, mark', hmark, hmark', htrim⟩ := exists_of_quotedNonempty? hpath
  exact ⟨mark, mark', hmark, hmark', hunquoted, htrim ▸ (skips_verb hverb).trans
    ((skips_dropSpaced? (fun _ ↦ isQuote_of_isBlank) (by decide) hopened).trans
      (skips_trimLeft (fun _ ↦ isQuote_of_isBlank) opened))⟩

theorem endsInOrder_calledVerb? : EndsInOrder calledVerb? :=
  endsInOrder_of_quotes fun _ d _ h ↦
    let ⟨mark, mark', hpath⟩ := exists_of_calledVerb? h
    ⟨mark, d.path, mark', hpath⟩

theorem fluentCall_eq_calledVerb? (before : Option CodePoint) (t : Text) : fluentCall before t =
    if before.any CodePoint.isWord then none else calledVerb? t := by
  rw [fluentCall, atBoundary]
  cases before.any CodePoint.isWord <;> rfl

theorem incremental_fluentCall : fluentCall.Incremental := by
  have hnone : fluentCall none = calledVerb? := funext (fluentCall_eq_calledVerb? none)
  refine incremental_of_endsInOrder (fun before ↦ ?_) (hnone ▸ selfDelimiting_calledVerb?)
    (hnone ▸ endsInOrder_calledVerb?)
  simp only [hnone, fluentCall_eq_calledVerb? before]
  cases before.any CodePoint.isWord
  · exact .inr fun _ ↦ rfl
  · exact .inl fun _ ↦ rfl

/-! ## Registrations -/

theorem selfDelimiting_registrationOpening : SelfDelimiting (registrationOpening none) :=
  (selfDelimiting_dropWord? 'r' "oute").after
    ((selfDelimiting_dropSpaced? '(' []).after (selfDelimiting_dropSpaced? '\x7b' []))

theorem selfDelimiting_dropFieldName? (letter : CodePoint) (name : Text) :
    SelfDelimiting (dropping (dropFieldName? (letter :: name))) :=
  (selfDelimiting_dropWord? letter name).bind_dropping (selfDelimiting_dropSpaced? ':' [])

theorem selfDelimiting_methodField : SelfDelimiting (methodField none) :=
  (selfDelimiting_dropFieldName? 'm' "ethod").after
    (selfDelimiting_dropQuote?.trimLeft.after
      (selfDelimiting_verb.before selfDelimiting_dropQuote?))

theorem selfDelimiting_urlField : SelfDelimiting (urlField none) :=
  (selfDelimiting_dropFieldName? 'u' "rl").after selfDelimiting_quotedNonempty?.trimLeft

theorem selfDelimiting_registrationClosing : SelfDelimiting (registrationClosing none) :=
  (selfDelimiting_dropLiteral? '\x7d' []).after (selfDelimiting_dropSpaced? ')' [])

theorem selfDelimiting_finish : SelfDelimiting Registration.finish :=
  (isField_methodField.selfDelimiting_first? selfDelimiting_methodField).bind fun verb ↦
    (isField_urlField.selfDelimiting_first? selfDelimiting_urlField).bind fun path ↦
      (isField_registrationClosing.selfDelimiting_first? selfDelimiting_registrationClosing).map
        fun _ ↦ (⟨verb, path⟩ : Declaration)

theorem endsInOrder_finish : EndsInOrder Registration.finish := by
  intro c t u d d' x y hu h h'
  obtain ⟨⟨verb, called⟩, hverb, h⟩ := Option.bind_eq_some_iff.mp h
  obtain ⟨⟨path, addressed⟩, hpath, h⟩ := Option.bind_eq_some_iff.mp h
  obtain ⟨⟨_, closed⟩, hclosed, heq⟩ := Option.bind_eq_some_iff.mp h
  cases heq
  obtain ⟨⟨verb', called'⟩, hverb', h'⟩ := Option.bind_eq_some_iff.mp h'
  obtain ⟨⟨path', addressed'⟩, hpath', h'⟩ := Option.bind_eq_some_iff.mp h'
  obtain ⟨⟨_, closed'⟩, hclosed', heq'⟩ := Option.bind_eq_some_iff.mp h'
  cases heq'
  have hcalled := isField_methodField.endsInOrder_first? hu hverb hverb'
  have haddressed := isField_urlField.endsInOrder_first?.isSuffix hcalled hpath hpath'
  exact isField_registrationClosing.endsInOrder_first?.isSuffix haddressed hclosed hclosed'

theorem incremental_registration : registration.Incremental := by
  have hnone : registration none = fun t ↦
      (registrationOpening none t).bind fun opened ↦ Registration.finish opened.2 :=
    funext (registration_eq_finish none)
  refine incremental_of_endsInOrder (fun before ↦ ?_) ?_ ?_
  · simp only [hnone, registration_eq_finish before]
    cases before.any CodePoint.isWord
    · exact .inr fun _ ↦ rfl
    · exact .inl fun _ ↦ rfl
  · exact hnone ▸ selfDelimiting_registrationOpening.bind fun _ ↦ selfDelimiting_finish
  · intro c t u d d' x y hu h h'
    rw [hnone] at h h'
    obtain ⟨⟨_, opened⟩, hopened, hfinish⟩ := Option.bind_eq_some_iff.mp h
    obtain ⟨⟨_, opened'⟩, hopened', hfinish'⟩ := Option.bind_eq_some_iff.mp h'
    exact endsInOrder_finish.isSuffix
      (endsInOrder_registrationOpening hu hopened hopened') hfinish hfinish'

end Declaration

/-! ## Endpoints -/

namespace Dialect

variable {name defaultPath file content more : Text} {pattern : Pattern Declaration} {d : Dialect}
  {later : List Endpoint}

theorem mapM_congr_of_mem {α β ε : Type} {f g : α → Except ε β} {as : List α}
    (h : ∀ a ∈ as, f a = g a) : as.mapM f = as.mapM g := by
  induction as with
  | nil => rfl
  | cons a rest ih =>
    obtain ⟨hfirst, hrest⟩ := List.forall_mem_cons.mp h
    rw [List.mapM_cons, List.mapM_cons, hfirst, ih hrest]

/-- Text after the offset of a declaration has no influence on its endpoint. -/
theorem endpoint?_append {o : Occurrence Declaration} (ho : o.start ≤ content.length) :
    endpoint? name defaultPath file (content ++ more) o =
      endpoint? name defaultPath file content o := by
  have htake : (content ++ more).take o.start = content.take o.start :=
    List.take_append_of_le_length ho
  have hdocumentation : documentationAt (content ++ more) o.start =
      documentationAt content o.start := by
    rw [documentationAt, documentationAt, DocComment.lastBefore, DocComment.lastBefore, Text.upTo,
      Text.upTo, if_pos (Int.natCast_nonneg _), if_pos (Int.natCast_nonneg _), Int.toNat_natCast,
      htake]
  have hline : lineAt (content ++ more) o.start = lineAt content o.start := by
    rw [lineAt, lineAt, htake]
  rw [endpoint?, endpoint?, hdocumentation, hline]

theorem extractWith_append (hpattern : pattern.Incremental)
    (h : extractWith name pattern defaultPath file (content ++ more) = .ok later) :
    ∃ endpoints, extractWith name pattern defaultPath file content = .ok endpoints ∧
      endpoints <+: later := by
  obtain ⟨others, hothers⟩ := hpattern.occurrences_isPrefix content more
  have hsame : (pattern.occurrences content).mapM
        (endpoint? name defaultPath file (content ++ more)) =
      (pattern.occurrences content).mapM (endpoint? name defaultPath file content) :=
    mapM_congr_of_mem fun o ho ↦
      endpoint?_append (Pattern.exists_of_mem_occurrences ho).1.le
  rw [extractWith, ← hothers, List.mapM_append, hsame] at h
  rw [extractWith]
  cases hfirst : (pattern.occurrences content).mapM (endpoint? name defaultPath file content) with
  | error c =>
    rw [hfirst] at h
    cases h
  | ok found =>
    cases hrest : others.mapM (endpoint? name defaultPath file (content ++ more)) with
    | error c =>
      rw [hfirst, hrest] at h
      cases h
    | ok added =>
      rw [hfirst, hrest] at h
      cases h
      exact ⟨_, rfl, _, (List.filterMap_append ..).symm⟩

/-- **Code after a text leaves its fluent calls and registrations as they are.** When the endpoints
of the longer text are extracted, so are those of the text, and they come first among them, with all
that they say. -/
theorem extract_append_isPrefix (hd : d = express ∨ d = fastify)
    (h : d.extract file (content ++ more) = .ok later) :
    ∃ endpoints, d.extract file content = .ok endpoints ∧ endpoints <+: later := by
  rcases hd with rfl | rfl
  · exact extractWith_append Declaration.incremental_fluentCall h
  · exact extractWith_append Declaration.incremental_registration h

private def cutFile : Text :=
  "/** A. */\nroute(\x7b method: 'GET', url: '/a' \x7d)\nroute(\x7b method: 'PUT', url: '/"

private def firstEndpoint : Endpoint :=
  ⟨.get, "/a", "fastify", "a.js", some "A.", [], .null, none, some 2⟩

private def completedEndpoint : Endpoint :=
  ⟨.put, "/b", "fastify", "a.js", some "A.", [], .null, none, some 3⟩

/-- The text is cut in the path of its second registration, and completed. -/
theorem extract_append_isPrefix_cut :
    fastify.extract "a.js" (cutFile ++ "b' \x7d)") = .ok [firstEndpoint, completedEndpoint] ∧
      ∃ endpoints, fastify.extract "a.js" cutFile = .ok endpoints ∧
        endpoints <+: [firstEndpoint, completedEndpoint] := by
  have hextract : fastify.extract "a.js" (cutFile ++ "b' \x7d)") =
      .ok [firstEndpoint, completedEndpoint] := rfl
  exact ⟨hextract, extract_append_isPrefix (.inr rfl) hextract⟩

end Dialect

end RouteCatalog
