import RouteCatalog.Proofs.Route.Forward

/-!
# No match is rejected

A declaration that a built-in dialect matches could still be rejected, for its verb or for its path.
Neither happens: whatever letters of whatever case the expression takes for a verb name one in upper
case, and a path is empty only where there is a default one. So there is one endpoint for each match
(`extract_accepts`), and a dialect that looks for a match before it applies to a file finds an
endpoint in it.
-/

namespace RouteCatalog

open Declaration

namespace Dialect

variable {d : Dialect} {r : Expression} {pattern : Pattern Declaration}
  {defaultPath file content : Text} {endpoints : List Endpoint}

/-- The expression of the declarations of a built-in dialect. -/
inductive Spelling : Dialect → Expression → Prop
  | express : Spelling express fluentCallExpression
  | fastify : Spelling fastify registrationExpression
  | nestjs : Spelling nestjs decoratorExpression

/-- An endpoint stands for a match. -/
structure Accepts (d : Dialect) (content : Text) (o : Occurrence Expression.Groups)
    (e : Endpoint) : Prop where
  /-- The first group is a spelling of the verb, which is read from it. -/
  verb : ∃ word ∈ verbWords, ∃ written, o.value.lookup 1 = some written ∧
    Text.SameLetters word written ∧ Verb.parse? written = some e.verb ∧ e.verb.name = word.upper
  /-- The path is the second group, or the root where that group is missing or empty. -/
  path : (e.path ≠ [] ∧ o.value.lookup 2 = some e.path) ∨
    d.name = "nestjs" ∧ (o.value.lookup 2 = none ∨ o.value.lookup 2 = some []) ∧ e.path = "/"
  line : e.line = some (1 + (content.take o.start).count (CodePoint.ofChar '\n') : Nat)

/-! ## Verbs -/

theorem name_of_sameLetters {word written : Text} {v : Verb} (hword : word ∈ verbWords)
    (h : Text.SameLetters word written) (hparse : Verb.parse? written = some v) :
    v.name = word.upper := by
  have hletters : ∀ word ∈ verbWords, ∀ letter ∈ word,
      letter.between 0x61 0x7A = true ∧ letter ≠ 'k' ∧ letter ≠ 'i' := by decide
  rw [Verb.parse?, Text.trim_of_sameLetters (fun letter hl ↦ (hletters word hword letter hl).1) h,
    Text.upper_of_sameLetters (hletters word hword) h] at hparse
  have hname := List.find?_some hparse
  exact of_decide_eq_true hname

theorem sameLetters_of_decoratorNames :
    ∀ name ∈ decoratorNames, ∃ word ∈ verbWords, Text.SameLetters word name := by
  decide

/-- What a built-in dialect takes for a verb is a spelling of a verb word. -/
theorem Grammar.exists_sameLetters (hgrammar : Grammar d pattern defaultPath)
    {before : Option CodePoint} {t rest : Text} {declaration : Declaration}
    (h : pattern before t = some (declaration, rest)) :
    ∃ word ∈ verbWords, Text.SameLetters word declaration.verb := by
  cases hgrammar with
  | express =>
    unfold fluentCall at h
    split at h
    · cases h
    · obtain ⟨⟨verb, called⟩, hverb, h⟩ := Option.bind_eq_some_iff.mp h
      obtain ⟨opened, -, h⟩ := Option.bind_eq_some_iff.mp h
      obtain ⟨path, -, heq⟩ := Option.bind_eq_some_iff.mp h
      cases heq
      exact exists_of_anyWord? hverb
  | fastify =>
    obtain ⟨⟨v, opened⟩, -, h⟩ := Option.bind_eq_some_iff.mp h
    obtain ⟨⟨verb, called⟩, hverb, h⟩ := Option.bind_eq_some_iff.mp h
    obtain ⟨⟨path, after⟩, -, h⟩ := Option.bind_eq_some_iff.mp h
    obtain ⟨⟨v, closed⟩, -, heq⟩ := Option.bind_eq_some_iff.mp h
    cases heq
    obtain ⟨tail, -, before, hfield⟩ := Pattern.exists_of_first? hverb
    obtain ⟨named, -, hfield⟩ := Option.bind_eq_some_iff.mp hfield
    obtain ⟨opened, -, hfield⟩ := Option.bind_eq_some_iff.mp hfield
    obtain ⟨⟨verb, after⟩, hverb, hfield⟩ := Option.bind_eq_some_iff.mp hfield
    obtain ⟨closed, -, heq⟩ := Option.bind_eq_some_iff.mp hfield
    cases heq
    exact exists_of_anyWord? hverb
  | nestjs =>
    obtain ⟨opened, -, h⟩ := Option.bind_eq_some_iff.mp h
    obtain ⟨⟨verb, called⟩, hverb, h⟩ := Option.bind_eq_some_iff.mp h
    obtain ⟨started, -, h⟩ := Option.bind_eq_some_iff.mp h
    obtain ⟨after, -, heq⟩ := Option.bind_eq_some_iff.mp h
    cases heq
    obtain ⟨name, hname, hfound⟩ := List.exists_of_findSome?_eq_some hverb
    obtain ⟨tail, -, heq⟩ := Option.map_eq_some_iff.mp hfound
    cases heq
    exact sameLetters_of_decoratorNames verb hname

/-! ## Matches -/

/-- The matches of the expression are the declarations that the dialect looks for. -/
theorem Spelling.exists_grammar (h : Spelling d r) :
    ∃ pattern defaultPath, Grammar d pattern defaultPath ∧
      (defaultPath = [] ∨ d.name = "nestjs" ∧ defaultPath = "/") ∧
      ∀ content, pattern.occurrences content =
        (r.matchesIn content).map fun o ↦ ⟨o.start, o.length, ofGroups o.value⟩ := by
  have hoccurrences {pattern : Pattern Declaration} {r : Expression}
      (hpattern : ∀ before t, (r.pattern before t).map
        (fun found ↦ (ofGroups found.1, found.2)) = pattern before t) (content : Text) :
      pattern.occurrences content =
        (r.matchesIn content).map fun o ↦ ⟨o.start, o.length, ofGroups o.value⟩ := by
    have hsame : pattern = fun before t ↦ (r.pattern before t).map
        fun found ↦ (ofGroups found.1, found.2) :=
      funext fun before ↦ funext fun t ↦ (hpattern before t).symm
    rw [hsame]
    exact Pattern.occurrencesFrom_map r.pattern ofGroups 0 0 none content
  cases h with
  | express => exact ⟨_, _, .express, .inl rfl, hoccurrences fluentCallExpression_pattern⟩
  | fastify =>
    refine ⟨_, _, .fastify, .inl rfl, hoccurrences fun before t ↦ ?_⟩
    rw [registrationExpression_pattern, Option.map_map]
    exact Option.map_id' ..
  | nestjs => exact ⟨_, _, .nestjs, .inr ⟨rfl, rfl⟩, hoccurrences decoratorExpression_pattern⟩

theorem accepts_of_reports {o : Occurrence Expression.Groups} {e : Endpoint}
    (hdefault : defaultPath = [] ∨ d.name = "nestjs" ∧ defaultPath = "/")
    (hletters : ∃ word ∈ verbWords, Text.SameLetters word (ofGroups o.value).verb)
    (htarget : ∃ verb path, target? defaultPath (ofGroups o.value) = some (verb, path))
    (h : Reports d.name defaultPath file content ⟨o.start, o.length, ofGroups o.value⟩ e) :
    Accepts d content o e where
  verb := by
    obtain ⟨word, hword, hspelled⟩ := hletters
    have hne : ∀ word ∈ verbWords, word ≠ [] := by decide
    have hlookup : o.value.lookup 1 = some (ofGroups o.value).verb := by
      cases hfirst : o.value.lookup 1 with
      | some written => rw [ofGroups, hfirst, Option.getD_some]
      | none =>
        rw [ofGroups, hfirst, Option.getD_none] at hspelled
        exact absurd (List.forall₂_nil_right_iff.mp hspelled) (hne word hword)
    exact ⟨word, hword, _, hlookup, hspelled, h.verb, name_of_sameLetters hword hspelled h.verb⟩
  path := by
    have hreported : e.path = if ((o.value.lookup 2).getD []).isEmpty then defaultPath
        else (o.value.lookup 2).getD [] := h.path
    have hpath : e.path ≠ [] := by
      obtain ⟨verb, path, htarget⟩ := htarget
      obtain ⟨-, hne, heq⟩ := target?_eq_some htarget
      exact hreported ▸ heq ▸ hne
    have hroot (hempty : e.path = defaultPath) : d.name = "nestjs" ∧ e.path = "/" := by
      obtain ⟨hname, hroot⟩ := hdefault.resolve_left fun hnil ↦ hpath (hempty.trans hnil)
      exact ⟨hname, hempty.trans hroot⟩
    cases hsecond : o.value.lookup 2 with
    | none =>
      rw [hsecond] at hreported
      exact .inr ⟨(hroot hreported).1, .inl rfl, (hroot hreported).2⟩
    | some path =>
      rw [hsecond] at hreported
      cases path with
      | nil => exact .inr ⟨(hroot hreported).1, .inr rfl, (hroot hreported).2⟩
      | cons c path => exact .inl ⟨hpath, congrArg some hreported.symm⟩
  line := by rw [h.line, lineAt, Nat.add_comm]

/-! ## Files to which a dialect applies -/

theorem occurrencesFrom_ne_nil {α : Type} {p : Pattern α} {t : Text} (start : Nat)
    (before : Option CodePoint) (h : (p.first? before t).isSome = true) :
    p.occurrencesFrom 0 start before t ≠ [] := by
  induction t generalizing start before with
  | nil => cases h
  | cons c t ih =>
    rw [Pattern.first?] at h
    rw [Pattern.occurrencesFrom]
    split
    · exact List.cons_ne_nil _ _
    · next hnone =>
      rw [hnone] at h
      exact ih _ _ h

/-- **A dialect that looks for a match before it applies finds one.** -/
theorem occurrences_ne_nil_of_applies (hgrammar : Grammar d pattern defaultPath)
    (hname : d.name ≠ "nestjs") (h : d.applies file content = .ok true) :
    pattern.occurrences content ≠ [] := by
  cases hgrammar with
  | express =>
    have hboth := Except.ok.inj h
    rw [Bool.and_eq_true] at hboth
    exact occurrencesFrom_ne_nil 0 none hboth.2
  | fastify =>
    have hboth := Except.ok.inj h
    rw [Bool.and_eq_true] at hboth
    exact occurrencesFrom_ne_nil 0 none hboth.2
  | nestjs => exact absurd rfl hname

/-! ## All matches -/

/-- **One endpoint for each match, in their order.** A file of which the endpoints are extracted has
an endpoint for every match of the dialect's expression and no other ones. A dialect other than the
one with a default path applies only where there is one. -/
theorem extract_accepts (hspelling : Spelling d r)
    (hextract : d.extract file content = .ok endpoints) :
    List.Forall₂ (Accepts d content) (r.matchesIn content) endpoints ∧
      (d.name ≠ "nestjs" → d.applies file content = .ok true → endpoints ≠ []) := by
  obtain ⟨pattern, defaultPath, hgrammar, hdefault, hoccurrences⟩ := hspelling.exists_grammar
  have hshallow : ∀ o ∈ pattern.occurrences content, ¬ TooDeepAt content o.start := by
    intro o ho hdeep
    obtain ⟨failure, hfailure⟩ := hgrammar.extract_of_tooDeepAt file ho hdeep
    rw [hextract] at hfailure
    cases hfailure
  obtain ⟨reported, hreported, hall⟩ := hgrammar.extract_of_shallow file hshallow
  obtain rfl : endpoints = reported := Except.ok.inj (hextract.symm.trans hreported)
  have hmatch : ∀ o ∈ pattern.occurrences content,
      (∃ word ∈ verbWords, Text.SameLetters word o.value.verb) ∧
        ∃ verb path, target? defaultPath o.value = some (verb, path) := by
    intro o ho
    obtain ⟨-, before, rest, hfound⟩ := Pattern.exists_of_mem_occurrences ho
    exact ⟨hgrammar.exists_sameLetters hfound, hgrammar.exists_target hfound⟩
  constructor
  · have hreports := (List.forall₂_and_left _ _).mpr ⟨hmatch, hall⟩
    rw [hoccurrences, List.forall₂_map_left_iff] at hreports
    exact hreports.imp fun o e h ↦ accepts_of_reports hdefault h.1.1 h.1.2 h.2
  · intro hname happlies hnil
    rw [hnil, List.forall₂_nil_right_iff] at hall
    exact occurrences_ne_nil_of_applies hgrammar hname happlies hall

private def mixedCase : Text := "express()\n  .GeT('/a')"

private def mixedCaseEndpoint : Endpoint :=
  ⟨.get, "/a", "express", "a.js", none, [], .null, none, some 2⟩

/-- A call in mixed case is an endpoint. -/
theorem extract_accepts_mixed_case :
    express.extract "a.js" mixedCase = .ok [mixedCaseEndpoint] ∧
      express.applies "a.js" mixedCase = .ok true ∧
      List.Forall₂ (Accepts express mixedCase) (fluentCallExpression.matchesIn mixedCase)
        [mixedCaseEndpoint] ∧ [mixedCaseEndpoint] ≠ [] := by
  have hextract : express.extract "a.js" mixedCase = .ok [mixedCaseEndpoint] := rfl
  have happlies : express.applies "a.js" mixedCase = .ok true := by decide +kernel
  obtain ⟨hall, hne⟩ := extract_accepts .express hextract
  exact ⟨hextract, happlies, hall, hne (by decide) happlies⟩

end Dialect

end RouteCatalog
