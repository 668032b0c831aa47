import RouteCatalog.Proofs.Yaml.Printed

/-!
# Cutting one word

One round of `Token.State.run` passes over the space before a word, ends the collections to the
right of it, and cuts the word. Here each part of a round is stated for words that start with a
visible character of ASCII; `State.run_step` puts the parts together. Outside brackets, and while at
most a mapping at the margin is open, no word ends a collection.
-/

namespace RouteCatalog.Yaml.Token

open Style

variable {s s' w : State} {c : CodePoint} {t u rest : Text} {endsLine : Bool}

namespace Place

theorem after_of_isSimple (p : Place) (h : ∀ c ∈ t, isSimple c = true) :
    p.after t = ⟨p.offset + t.length, p.line, p.column + t.length⟩ := by
  induction t generalizing p with
  | nil => rfl
  | cons c t ih =>
    obtain ⟨hc, ht⟩ := List.forall_mem_cons.mp h
    have hmark : c.toNat ≠ 0xFEFF := by
      rw [isSimple_iff] at hc
      omega
    have hnext : p.next c = ⟨p.offset + 1, p.line, p.column + 1⟩ := by
      rw [next, isBreak_of_isSimple hc, if_neg Bool.false_ne_true, if_neg hmark]
    rw [after_cons, hnext, ih _ ht, List.length_cons, Nat.add_assoc, Nat.add_assoc, Nat.add_comm 1]

end Place

/-- The text starts with a visible character that starts no comment, or is empty. -/
def StartsWord (t : Text) : Prop :=
  ∀ c, t.head? = some c → isSimple c = true ∧ c ≠ ' ' ∧ c ≠ '#'

namespace State

/-! ## The space before a word -/

theorem skipSpace_of_startsWord (h : StartsWord t) : skipSpace false t = (false, t) := by
  cases t with
  | nil => rfl
  | cons c t =>
    obtain ⟨hsimple, hblank, hcomment⟩ := h c rfl
    have hcomment : (false || decide (c = '#')) = false := by simpa using hcomment
    rw [skipSpace, isBreak_of_isSimple hsimple, if_neg Bool.false_ne_true, hcomment,
      if_neg Bool.false_ne_true, if_neg hblank]

theorem moveTo_eq (h : s.rest = u ++ t) :
    s.moveTo t = { s with rest := t, place := s.place.after u } := by
  rw [moveTo, h, List.length_append, Nat.add_sub_cancel, List.take_left]

theorem emit_eq (token : Token) (h : s.rest = u ++ t) :
    s.emit token t = { s with rest := t, place := s.place.after u, tokens := token :: s.tokens } :=
  moveTo_eq h

theorem toWord_eq (hskip : skipSpace false s.rest = (endsLine, t)) (hrest : s.rest = u ++ t)
    (hmark : ∀ c, s.rest.head? = some c → c.toNat ≠ 0xFEFF) :
    s.toWord = { s with
      rest := t
      place := s.place.after u
      keyAllowed := s.keyAllowed || (endsLine && !s.inBrackets) } := by
  obtain ⟨whole, place, tokens, columns, keyAllowed, candidate, outer⟩ := s
  have hmove := moveTo_eq hrest
  cases whole with
  | nil =>
    rw [toWord, hskip]
    dsimp only
    rw [hmove]
  | cons c whole =>
    have hc : decide (c.toNat = 0xFEFF) = false := decide_eq_false (hmark c rfl)
    rw [toWord]
    dsimp only
    rw [hc, Bool.and_false, if_neg Bool.false_ne_true, hskip]
    dsimp only
    rw [hmove]

theorem toWord_of_startsWord (h : StartsWord s.rest) : s.toWord = s := by
  have hmark (c : CodePoint) (hc : s.rest.head? = some c) : c.toNat ≠ 0xFEFF := by
    have := isSimple_iff.mp (h c hc).1
    omega
  rw [toWord_eq (skipSpace_of_startsWord h) (List.nil_append s.rest).symm hmark, Bool.false_and,
    Bool.or_false]
  rfl

/-! ## Candidates and collections -/

theorem dropStale_of_none (hcandidate : s.candidate = none) (houter : s.outer = []) :
    s.dropStale = .ok s := by
  obtain ⟨rest, place, tokens, columns, keyAllowed, candidate, outer⟩ := s
  subst hcandidate
  subst houter
  rfl

theorem dropStale_of_fresh {candidate : Candidate} (hcandidate : s.candidate = some candidate)
    (houter : s.outer = []) (hfresh : s.isStale candidate = false) : s.dropStale = .ok s := by
  obtain ⟨rest, place, tokens, columns, keyAllowed, _, outer⟩ := s
  subst hcandidate
  subst houter
  rw [dropStale]
  simp only [List.any_cons, Option.any_some, hfresh, Bool.false_and, List.any_nil, Bool.or_self,
    Bool.false_eq_true, if_false, Option.filter_some, Bool.not_false, if_true, List.map_nil]

theorem addCandidate_of_allowed (hallowed : s.keyAllowed = true) (hcandidate : s.candidate = none)
    (houter : s.outer = []) :
    s.addCandidate = .ok { s with
      candidate := some ⟨s.tokens.length, s.place, s.columns.head? = some s.place.column⟩ } := by
  obtain ⟨rest, place, tokens, columns, keyAllowed, candidate, outer⟩ := s
  subst hallowed
  subst hcandidate
  subst houter
  rfl

theorem addCandidate_of_forbidden (h : s.keyAllowed = false) : s.addCandidate = .ok s := by
  rw [addCandidate, h, if_neg Bool.false_ne_true]

theorem closeTo_eq (hcolumns : s.columns = [] ∨ s.columns = [0]) (column : Nat) :
    s.closeTo column = s := by
  obtain ⟨rest, place, tokens, columns, keyAllowed, candidate, outer⟩ := s
  rw [closeTo]
  split
  · rfl
  · rcases hcolumns with h | h
    · subst h
      rfl
    · subst h
      rfl

/-! ## Rounds -/

/-- **One round**: the word `w` stands at is cut. -/
theorem run_step {fuel : Nat} (hstale : s.dropStale = .ok s) (hword : s.toWord = w)
    (hfresh : w.dropStale = .ok w) (hrest : w.rest = c :: t)
    (hclose : w.closeTo w.place.column = w) (hfetch : w.fetch c t = .ok s') :
    run (fuel + 1) s = run fuel s' := by
  rw [run, hstale]
  dsimp only
  rw [hword, hfresh]
  dsimp only
  rw [hrest]
  dsimp only
  rw [hclose, hfetch]

theorem plain_of_read (hadd : s.addCandidate = .ok w)
    (hread : Plain.read w.inBrackets w.least w.rest = ⟨t, endsLine, rest⟩)
    (hrest : w.rest = u ++ rest) :
    s.plain = .ok { w with
      rest := rest
      place := w.place.after u
      tokens := .scalar t true :: w.tokens
      keyAllowed := endsLine } := by
  rw [plain, hadd, Except.map]
  dsimp only
  rw [hread]
  exact congrArg Except.ok (emit_eq _ hrest)

theorem word_of_read {token : Token} (hadd : s.addCandidate = .ok w) (hrest : w.rest = u ++ rest) :
    s.word (.ok (token, rest)) = .ok { w with
      rest := rest
      place := w.place.after u
      tokens := token :: w.tokens
      keyAllowed := false } := by
  rw [word, hadd]
  exact congrArg Except.ok (emit_eq _ hrest)

/-! ## Which word it is -/

section

variable (houter : s.outer = []) (hsimple : isSimple c = true) (hblank : c ≠ ' ')
  (hindicator : Style.indicators.contains c = false)
  (hword : c = '?' ∨ c = ':' ∨ c = '-' → endsWord t = false)
include houter hsimple hblank hindicator hword

/-- The indicators of the reader are those of the writer and three that need a word to end. -/
theorem startsPlain_eq_true : s.startsPlain c t = true := by
  have houter : s.inBrackets = false := by
    rw [inBrackets, houter]
    rfl
  rw [startsPlain, houter, isSpace_of_isSimple hsimple hblank, isBreak_of_isSimple hsimple]
  by_cases hc : c = '?' ∨ c = ':' ∨ c = '-'
  · rw [hword hc]
    rcases hc with rfl | rfl | rfl
    · decide
    · decide
    · decide
  · have hnone : indicators.contains c = false := by
      have hall : ∀ i ∈ indicators,
          Style.indicators.contains i = true ∨ i = '?' ∨ i = ':' ∨ i = '-' := by decide
      rw [← Bool.not_eq_true, List.contains_iff_mem]
      intro hmem
      rcases hall c hmem with h | h
      · exact absurd (hindicator.symm.trans h) (by decide)
      · exact hc h
    rw [hnone]
    rfl

/-- A plain scalar: neither an indicator nor a mark between documents starts it. -/
theorem fetch_plain (hmark : s.place.column = 0 → c ≠ '-' ∧ c ≠ '.') :
    s.fetch c t = s.plain := by
  have hstart := startsPlain_eq_true houter hsimple hblank hindicator hword
  have hne (i : CodePoint) (hi : i ∈ Style.indicators) : c ≠ i := by
    rintro rfl
    exact absurd (hindicator.symm.trans (List.contains_iff_mem.mpr hi)) (by decide)
  have houter : s.inBrackets = false := by
    rw [inBrackets, houter]
    rfl
  have hmark (i : CodePoint) (hi : i = '-' ∨ i = '.') :
      (decide (s.place.column = 0) && atDocumentMark (c :: t) && decide (c = i)) = false := by
    rw [Bool.and_eq_false_iff, Bool.and_eq_false_iff, decide_eq_false_iff_not,
      decide_eq_false_iff_not]
    by_cases hcolumn : s.place.column = 0
    · rcases hi with rfl | rfl
      · exact .inr (hmark hcolumn).1
      · exact .inr (hmark hcolumn).2
    · exact .inl (.inl hcolumn)
  have hends (i : CodePoint) (hi : i = '?' ∨ i = ':' ∨ i = '-') :
      (decide (c = i) && endsWord t) = false := by
    rw [Bool.and_eq_false_iff, decide_eq_false_iff_not]
    by_cases hc : c = i
    · subst hc
      exact .inr (hword hi)
    · exact .inl hc
  rw [fetch]
  simp only [hne '%' (by decide), hne '[' (by decide), hne ']' (by decide), hne '{' (by decide),
    hne '}' (by decide), hne ',' (by decide), hne '*' (by decide), hne '&' (by decide),
    hne '!' (by decide), hne '|' (by decide), hne '>' (by decide), hne '\'' (by decide),
    hne '"' (by decide), hmark '-' (.inl rfl), hmark '.' (.inr rfl), hends '-' (.inr (.inr rfl)),
    hends '?' (.inl rfl), hends ':' (.inr (.inl rfl)), decide_false, Bool.false_and,
    Bool.false_eq_true, if_false, houter, Bool.false_or, hstart, if_true]

end

theorem fetch_colon (h : endsWord t = true) : s.fetch (CodePoint.ofChar ':') t = s.value t := by
  have hne : ∀ i ∈ ("%-.[]\x7b\x7d,?" : Text), CodePoint.ofChar ':' ≠ i := by decide
  rw [fetch]
  simp only [hne '%' (by decide), hne '-' (by decide), hne '.' (by decide), hne '[' (by decide),
    hne ']' (by decide), hne '{' (by decide), hne '}' (by decide), hne ',' (by decide),
    hne '?' (by decide), h, decide_false, decide_true, Bool.false_and, Bool.and_false,
    Bool.or_true, Bool.and_self, Bool.false_eq_true, if_false, if_true]

theorem fetch_quote (hc : c = '\'' ∨ c = '"') :
    s.fetch c t =
      s.word ((Quoted.read (c = '"') t).map fun (text, rest) ↦ (.scalar text false, rest)) := by
  have hne : ∀ i ∈ ("%-.[]\x7b\x7d,?:*&!|>" : Text), c ≠ i := by
    rcases hc with rfl | rfl
    · decide
    · decide
  have hsingle : CodePoint.ofChar '\'' ≠ CodePoint.ofChar '"' := by decide
  rw [fetch]
  simp only [hne '%' (by decide), hne '-' (by decide), hne '.' (by decide), hne '[' (by decide),
    hne ']' (by decide), hne '{' (by decide), hne '}' (by decide), hne ',' (by decide),
    hne '?' (by decide), hne ':' (by decide), hne '*' (by decide), hne '&' (by decide),
    hne '!' (by decide), hne '|' (by decide), hne '>' (by decide), decide_false, Bool.false_and,
    Bool.and_false, Bool.false_eq_true, if_false]
  rcases hc with rfl | rfl
  · simp only [if_true, hsingle, decide_false]
  · simp only [if_true, hsingle.symm, if_false, decide_true]

end State

end RouteCatalog.Yaml.Token
