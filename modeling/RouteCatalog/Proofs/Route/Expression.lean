import RouteCatalog.Proofs.Route.Word
import RouteCatalog.Proofs.Text.Expression

/-!
# Declarations as regular expressions

Each of the three forms of a declaration is a regular expression. Fluent calls and decorators leave
the matching next to no choice: a blank, a letter or a quotation mark in the text tells what can
match it, and what was matched of a repetition cannot be matched otherwise. So what the library
recognises at a place is what the expression matches there (`fluentCallExpression_pattern`,
`decoratorExpression_pattern`).
-/

namespace RouteCatalog

namespace Declaration

open Expression

/-! ## Pieces -/

theorem avoidsFirst_quote {p : CodePoint → Bool} (hp : ∀ c, p c = true → isQuote c = false) :
    AvoidsFirst p (leaving dropQuote?) := by
  intro c t groups hc
  rw [leaving, dropQuote?, if_neg (by rw [hp c hc]; decide), Option.map_none]

theorem isQuote_of_isBlank {c : CodePoint} (hc : c.isBlank = true) : isQuote c = false := by
  by_contra hquote
  rw [Bool.not_eq_false] at hquote
  simp only [isQuote, Bool.or_eq_true, decide_eq_true_eq] at hquote
  rcases hquote with (rfl | rfl) | rfl <;> revert hc <;> decide

theorem isWord_of_sameLetter {letter c : CodePoint} (hletter : letter.between 0x61 0x7A = true)
    (h : CodePoint.sameLetter letter c = true) : c.isWord = true := by
  have hascii {c : CodePoint} (hlow : c.toNat < 0x80) (hc : c.isAsciiLetter = true) :
      c.isWord = true := by
    rw [CodePoint.isWord, CodePoint.isAlphanumeric, if_pos hlow, hc, Bool.or_true, Bool.true_or]
  simp only [CodePoint.between, Bool.and_eq_true, decide_eq_true_eq] at hletter
  rcases CodePoint.sameLetter_iff.mp h with rfl | ⟨-, hc⟩ | ⟨hc, -⟩ | ⟨hc, -⟩ | ⟨hc, -⟩
  · refine hascii (by omega) ?_
    simp only [CodePoint.isAsciiLetter, CodePoint.between, Bool.or_eq_true, Bool.and_eq_true,
      decide_eq_true_eq]
    omega
  · refine hascii (by omega) ?_
    simp only [CodePoint.isAsciiLetter, CodePoint.between, Bool.or_eq_true, Bool.and_eq_true,
      decide_eq_true_eq]
    omega
  · obtain rfl : c = .ofNat 0x17F := CodePoint.toNat_injective hc
    decide +kernel
  · obtain rfl : c = .ofNat 0x212A := CodePoint.toNat_injective hc
    decide +kernel
  · rcases Nat.le_iff_lt_or_eq.mp hc.2 with hlt | heq
    · obtain rfl : c = .ofNat 0x130 :=
        CodePoint.toNat_injective (Nat.le_antisymm (Nat.lt_succ_iff.mp hlt) hc.1)
      decide +kernel
    · obtain rfl : c = .ofNat 0x131 := CodePoint.toNat_injective heq
      decide +kernel

/-- A declaration from what the groups matched: the verb is the first group, the path the second. -/
def ofGroups (groups : Groups) : Declaration :=
  ⟨(groups.lookup 1).getD [], (groups.lookup 2).getD []⟩

/-- A quotation mark. -/
def quote : Expression := .char isQuote

theorem reads_word (word : Text) : Reads (Expression.word word) (leaving (dropWord? word)) := by
  induction word with
  | nil => exact reads_empty
  | cons letter word ih =>
    refine ((reads_char _).andThen_leaving ih).congr fun w ↦ congrArg (Option.map _) ?_
    cases w.rest with
    | nil => rfl
    | cons c t =>
      dsimp only [dropChar?, dropWord?]
      split <;> rfl

theorem reads_quote : Reads quote (leaving dropQuote?) := by
  refine (reads_char isQuote).congr fun w ↦ congrArg (Option.map _) ?_
  cases w.rest <;> rfl

theorem reads_spaced {l : List Expression} {g : Way → Option Way} (hl : Reads (inRow l) g)
    {a : CodePoint} (ha : a.isBlank = false) (text : Text) :
    Reads (inRow (blanks :: literal (a :: text) :: l)) fun w ↦
      (leaving (dropSpaced? (a :: text)) w).bind g :=
  ((reads_literal _).cons hl).blanks_cons (avoidsFirst_bind (avoidsFirst_literal ha text))

theorem reads_spaced_last {a : CodePoint} (ha : a.isBlank = false) (text : Text) :
    Reads (inRow [blanks, literal (a :: text)]) (leaving (dropSpaced? (a :: text))) :=
  (reads_literal _).last.blanks_cons (avoidsFirst_literal ha text)

theorem dropWord?_of_isSome {word other t : Text} (h : Clashes other word)
    (hother : ∀ letter ∈ other, letter.between 0x61 0x7A = true)
    (hword : ∀ letter ∈ word, letter.between 0x61 0x7A = true)
    (hsome : (dropWord? word t).isSome = true) : dropWord? other t = none := by
  obtain ⟨rest, hrest⟩ := Option.isSome_iff_exists.mp hsome
  obtain ⟨written, hwritten, rfl⟩ := dropWord?_eq_some_iff.mp hrest
  exact dropWord?_of_clashes (h.of_sameLetters hother hword hwritten) rest

theorem take_of_dropWord? {word t rest : Text} (h : dropWord? word t = some rest) :
    t.take (t.length - rest.length) = t.take word.length := by
  obtain ⟨written, hwritten, rfl⟩ := dropWord?_eq_some_iff.mp h
  rw [hwritten.length_eq, List.length_append, Nat.add_sub_cancel]

theorem reads_verb :
    Reads (.group 1 (anyOf (verbWords.map Expression.word))) (keeping 1 (anyWord? verbWords)) := by
  have hletters : ∀ word ∈ verbWords, ∀ letter ∈ word, letter.between 0x61 0x7A = true := by decide
  have hclash : verbWords.Pairwise fun a b ↦ Clashes b a := by
    simp only [verbWords, List.pairwise_cons, List.forall_mem_cons]
    decide
  have hapart : verbWords.Pairwise fun a b ↦
      ∀ t, (dropWord? a t).isSome = true → dropWord? b t = none :=
    hclash.imp_of_mem fun ha hb h t ↦ dropWord?_of_isSome h (hletters _ hb) (hletters _ ha)
  refine ((reads_anyOf reads_word hapart).group 1).congr fun w ↦ ?_
  rw [keeping, keeping, anyWord?, List.map_findSome?]
  refine congrArg (Option.map _) (congrArg (List.findSome? · verbWords) (funext fun word ↦ ?_))
  rw [Function.comp_apply]
  cases hdrop : dropWord? word w.rest with
  | none => rfl
  | some rest => rw [Option.map_some, Option.map_some, take_of_dropWord? hdrop]

theorem reads_quoted :
    Reads (inRow [quote, .group 2 (.greedy (!isQuote ·)), quote]) (keeping 2 quoted?) := by
  have hquote : AvoidsFirst (!isQuote ·) (leaving dropQuote?) :=
    avoidsFirst_quote fun c hc ↦ by rwa [Bool.not_eq_true'] at hc
  refine (reads_quote.cons (reads_quote.last.keepGreedy hquote 2)).congr fun w ↦ ?_
  rw [keeping, quoted?, leaving]
  cases dropQuote? w.rest with
  | none => rfl
  | some t =>
    dsimp only [leaving, Option.map_some, Option.bind_some]
    cases hclosed : dropQuote? (t.dropWhile (!isQuote ·)) <;> simp [hclosed]

theorem reads_quotedNonempty :
    Reads (inRow [quote, .group 2 (.andThen (.char (!isQuote ·)) (.greedy (!isQuote ·))), quote])
      (keeping 2 quotedNonempty?) := by
  have hquote : AvoidsFirst (!isQuote ·) (leaving dropQuote?) :=
    avoidsFirst_quote fun c hc ↦ by rwa [Bool.not_eq_true'] at hc
  refine (reads_quote.cons (reads_quote.last.keepGreedyNonempty hquote 2)).congr fun w ↦ ?_
  rw [keeping, quotedNonempty?, quoted?, leaving]
  cases dropQuote? w.rest with
  | none => rfl
  | some t =>
    dsimp only [leaving, Option.map_some, Option.bind_some]
    cases hclosed : dropQuote? (t.dropWhile (!isQuote ·)) with
    | none => simp [hclosed]
    | some rest =>
      simp only [hclosed, Option.bind_eq_bind, Option.bind_some, Option.pure_def]
      split <;> rfl

theorem avoidsFirst_quotedNonempty : AvoidsFirst CodePoint.isBlank (keeping 2 quotedNonempty?) := by
  intro c t groups hc
  simp [keeping, quotedNonempty?, quoted?, dropQuote?, isQuote_of_isBlank hc]

/-! ## Fluent calls -/

/-- A fluent call: a verb that starts a word, and a quoted path after a parenthesis. -/
def fluentCallExpression : Expression :=
  inRow [.boundary, .group 1 (anyOf (verbWords.map Expression.word)), blanks, literal "(", blanks,
    quote, .group 2 (.andThen (.char (!isQuote ·)) (.greedy (!isQuote ·))), quote]

/-- A verb, and a quoted path after a parenthesis. -/
def calledVerb? (t : Text) : Option (Declaration × Text) := do
  let (verb, t) ← anyWord? verbWords t
  let t ← dropSpaced? "(" t
  let (path, rest) ← quotedNonempty? t.trimLeft
  return (⟨verb, path⟩, rest)

/-- A declaration whose parts are kept under their numbers. -/
def declaring (find : Text → Option (Declaration × Text)) (w : Way) : Option Way :=
  (find w.rest).map fun (d, rest) ↦ ⟨rest, (2, d.path) :: (1, d.verb) :: w.groups⟩

theorem reads_calledVerb :
    Reads (inRow [.group 1 (anyOf (verbWords.map Expression.word)), blanks, literal "(", blanks,
      quote, .group 2 (.andThen (.char (!isQuote ·)) (.greedy (!isQuote ·))), quote])
      (declaring calledVerb?) := by
  have hargument := reads_spaced (a := '(')
    (reads_quotedNonempty.blanks_cons avoidsFirst_quotedNonempty) (by decide) []
  refine (reads_verb.cons hargument).congr fun w ↦ ?_
  simp only [keeping, declaring, calledVerb?, leaving, Option.bind_eq_bind, Option.pure_def,
    Option.map_eq_bind, Option.bind_assoc, Function.comp_def, Option.bind_some]
  rfl

theorem dropWord?_of_not_isWord {letter : CodePoint} (hletter : letter.between 0x61 0x7A = true)
    (word : Text) {t : Text} (h : t.head?.any CodePoint.isWord = false) :
    dropWord? (letter :: word) t = none := by
  cases t with
  | nil => rfl
  | cons c t =>
    refine if_neg fun hc ↦ ?_
    have hword : c.isWord = false := h
    rw [isWord_of_sameLetter hletter hc] at hword
    cases hword

theorem anyWord?_of_not_isWord {t : Text} (h : t.head?.any CodePoint.isWord = false) :
    anyWord? verbWords t = none := by
  have hletters : ∀ word ∈ verbWords, ∃ letter rest, word = letter :: rest ∧
      letter.between 0x61 0x7A = true := by
    simp only [verbWords, List.forall_mem_cons]
    exact ⟨⟨_, _, rfl, rfl⟩, ⟨_, _, rfl, rfl⟩, ⟨_, _, rfl, rfl⟩, ⟨_, _, rfl, rfl⟩, by simp⟩
  refine List.findSome?_eq_none_iff.mpr fun word hword ↦ ?_
  obtain ⟨letter, rest, rfl, hletter⟩ := hletters word hword
  rw [dropWord?_of_not_isWord hletter rest h, Option.map_none]

/-- **A fluent call is what its expression matches.** -/
theorem fluentCallExpression_pattern (before : Option CodePoint) (t : Text) :
    (fluentCallExpression.pattern before t).map (fun (groups, rest) ↦ (ofGroups groups, rest)) =
      fluentCall before t := by
  have hways (whole : Text) := reads_calledVerb whole ⟨t, []⟩
  have hcall : fluentCall before t =
      if before.any CodePoint.isWord then none else calledVerb? t := by
    rw [fluentCall, atBoundary]
    cases before.any CodePoint.isWord <;> rfl
  rw [Expression.pattern, fluentCallExpression, head?_ways_boundary fun hword ↦ ?_, hcall]
  · split
    · rfl
    · rw [hways, Option.head?_toList, declaring]
      cases calledVerb? t <;> rfl
  · rw [hways, Option.head?_toList, declaring, calledVerb?, anyWord?_of_not_isWord hword]
    rfl

/-! ## Decorators -/

/-- A decorator: a name that starts with a capital letter, and parentheses in which a quoted text
may stand. -/
def decoratorExpression : Expression :=
  inRow [literal "@", .group 1 (anyOf (decoratorNames.map literal)), blanks, literal "(", blanks,
    .orElse (inRow [quote, .group 2 (.greedy (!isQuote ·)), quote]) .empty, blanks, literal ")"]

theorem apart_decoratorNames : decoratorNames.Pairwise fun a b ↦
    ∀ t, (Text.dropLiteral? a t).isSome = true → Text.dropLiteral? b t = none := by
  have hclash (a b : Text) (h : ∀ rest, Text.dropLiteral? b (a ++ rest) = none) (t : Text)
      (hsome : (Text.dropLiteral? a t).isSome = true) : Text.dropLiteral? b t = none := by
    obtain ⟨rest, hrest⟩ := Option.isSome_iff_exists.mp hsome
    rw [Text.dropLiteral?_eq_some_iff.mp hrest]
    exact h rest
  simp only [decoratorNames, List.pairwise_cons, List.forall_mem_cons]
  refine ⟨⟨?_, ?_, ?_, ?_⟩, ⟨?_, ?_, ?_⟩, ⟨?_, ?_⟩, ?_, ?_⟩
  all_goals first | exact hclash _ _ fun rest ↦ rfl | simp

theorem reads_decoratorName :
    Reads (.group 1 (anyOf (decoratorNames.map literal))) (keeping 1 fun t ↦
      decoratorNames.findSome? fun name ↦
        (Text.dropLiteral? name t).map fun rest ↦ (name, rest)) := by
  refine ((reads_anyOf reads_literal apart_decoratorNames).group 1).congr fun w ↦ ?_
  rw [keeping, keeping, List.map_findSome?]
  refine congrArg (Option.map _) (congrArg (List.findSome? · _) (funext fun name ↦ ?_))
  rw [Function.comp_apply]
  cases hdrop : Text.dropLiteral? name w.rest with
  | none => rfl
  | some rest =>
    rw [Text.dropLiteral?_eq_some_iff.mp hdrop, Option.map_some, Option.map_some,
      List.length_append, Nat.add_sub_cancel, List.take_left]

/-- What follows the closing parenthesis, with or without a quoted text before it. -/
def closedArgument (w : Way) : Option Way :=
  ((keeping 2 quoted? w).bind (leaving (dropSpaced? ")"))).or (leaving (dropSpaced? ")") w)

theorem head?_ways_closedArgument (whole : Text) (w : Way) :
    ((inRow [.orElse (inRow [quote, .group 2 (.greedy (!isQuote ·)), quote]) .empty, blanks,
      literal ")"]).ways whole w).head? = closedArgument w := by
  have hclosing : Reads (inRow [blanks, literal ")"]) (leaving (dropSpaced? ")")) :=
    reads_spaced_last (by decide) []
  rw [inRow, ways, ways, reads_quoted whole w, ways, List.flatMap_append, List.flatMap_singleton,
    List.head?_append, hclosing whole w, closedArgument]
  cases keeping 2 quoted? w with
  | none => simp
  | some after => simp [hclosing whole after]

/-- A quoted text in parentheses starts with its quotation mark, so blanks before it leave no
choice. -/
theorem head?_ways_argument (whole : Text) (w : Way) :
    ((inRow [blanks, .orElse (inRow [quote, .group 2 (.greedy (!isQuote ·)), quote]) .empty, blanks,
      literal ")"]).ways whole w).head? = closedArgument { w with rest := w.rest.trimLeft } := by
  refine head?_ways_afterGreedy (head?_ways_closedArgument whole) ?_ w
  intro c t groups after hc hafter
  have hquoted : quoted? (c :: t) = none := by
    rw [quoted?, dropQuote?, if_neg (by rw [isQuote_of_isBlank hc]; decide)]
    rfl
  have hdrop : dropSpaced? ")" (c :: t) = Text.dropLiteral? ")" (Text.trimLeft t) :=
    congrArg (Text.dropLiteral? ")") (List.dropWhile_cons_of_pos hc)
  rw [closedArgument, keeping, hquoted, Option.map_none, Option.bind_none, Option.none_or, leaving,
    hdrop, Option.map_eq_some_iff] at hafter
  obtain ⟨rest, hrest, rfl⟩ := hafter
  have hclosing : t.dropWhile CodePoint.isBlank = Text.ofString ")" ++ rest :=
    Text.dropLiteral?_eq_some_iff.mp hrest
  rw [hclosing]
  rfl

theorem dropSpaced?_of_quoted {t : Text} (h : (quoted? t).isSome = true) :
    dropSpaced? ")" t = none := by
  cases t with
  | nil => cases h
  | cons c t =>
    have hquote : isQuote c = true := by
      by_contra hc
      rw [quoted?, dropQuote?, if_neg hc] at h
      cases h
    have hblank : ¬c.isBlank = true := fun hc ↦ by
      rw [isQuote_of_isBlank hc] at hquote
      cases hquote
    rw [dropSpaced?, Text.trimLeft, List.dropWhile_cons_of_neg hblank]
    refine if_neg ?_
    rintro rfl
    revert hquote
    decide

theorem closedArgument_eq (verb t : Text) :
    (closedArgument ⟨t, [(1, verb)]⟩).map (fun w ↦ (ofGroups w.groups, w.rest)) =
      (dropSpaced? ")" (argument t).2).bind fun rest ↦ some (⟨verb, (argument t).1⟩, rest) := by
  simp only [closedArgument, argument, keeping, leaving]
  cases hquoted : quoted? t with
  | none =>
    simp only [Option.map_none, Option.bind_none, Option.none_or, Option.getD_none]
    cases dropSpaced? ")" t <;> rfl
  | some found =>
    have hnone := dropSpaced?_of_quoted (t := t) (by rw [hquoted]; rfl)
    simp only [Option.map_some, Option.bind_some, Option.getD_some, hnone, Option.map_none,
      Option.or_none, leaving]
    cases dropSpaced? ")" found.2 <;> rfl

/-- **A decorator is what its expression matches.** -/
theorem decoratorExpression_pattern (before : Option CodePoint) (t : Text) :
    (decoratorExpression.pattern before t).map (fun (groups, rest) ↦ (ofGroups groups, rest)) =
      decorator before t := by
  have hopening : Reads (inRow [blanks, literal "("]) (leaving (dropSpaced? "(")) :=
    reads_spaced_last (by decide) []
  have hname := (reads_literal "@").cons (reads_decoratorName.cons hopening)
  have hways := head?_ways_inRow_append hname (before.toList ++ t) [blanks, .orElse (inRow [quote,
    .group 2 (.greedy (!isQuote ·)), quote]) .empty, blanks, literal ")"] ⟨t, []⟩
  simp only [head?_ways_argument] at hways
  rw [Expression.pattern, decoratorExpression]
  refine (congrArg (Option.map _ <| Option.map _ ·) hways).trans ?_
  simp only [leaving, keeping, decorator, Option.bind_eq_bind, Option.bind_map, Option.map_bind,
    Option.bind_assoc, Function.comp_def, Option.map_map, closedArgument_eq, Option.pure_def]

end Declaration

end RouteCatalog
