import Mathlib.Data.List.Basic
import RouteCatalog.Proofs.Text.Pattern
import RouteCatalog.Text.Case
import RouteCatalog.Text.Split
import RouteCatalog.Text.Word

/-!
# Regular expressions with backtracking

A regular expression is matched at a place of a text by trying its choices in a fixed order. A
greedy repetition takes as many characters as it can and gives them back one by one, a lazy one
starts with none, and the first side of an alternative is tried before the second. The ways in which
an expression matches the front of a text, in the order in which they are tried, are a list
(`Expression.ways`): to backtrack is to go on in this list, and the match is its first element
(`Expression.pattern`).

Most expressions leave no choice: they match in one way at most, and that way is what a function of
the text says (`Expression.Reads`). Such expressions in a row leave no choice either, nor do blanks
before an expression that does not start with a blank.
-/

namespace RouteCatalog

/-- A regular expression over code points. Only single characters are repeated. -/
inductive Expression
  | empty
  | char (p : CodePoint → Bool)
  /-- A boundary of a word: a word character on one side only. -/
  | boundary
  | andThen (r s : Expression)
  /-- One expression or, failing that, the other. -/
  | orElse (r s : Expression)
  /-- Characters of a class, as many as possible. -/
  | greedy (p : CodePoint → Bool)
  /-- Characters of a class, as few as possible. -/
  | lazy (p : CodePoint → Bool)
  /-- An expression whose match is kept under a number. -/
  | group (number : Nat) (r : Expression)

namespace Expression

/-- What was matched by the groups, each with its number, the last one first. -/
abbrev Groups := List (Nat × Text)

/-- A way of matching the front of a text. -/
structure Way where
  rest : Text
  /-- What the groups matched. -/
  groups : Groups

/-! ## Matching -/

/-- What follows one character of a class. -/
def dropChar? (p : CodePoint → Bool) : Text → Option Text
  | [] => none
  | c :: t => if p c then some t else none

/-- What is left of a text after none, one, two and more characters of a class. -/
def remainders (p : CodePoint → Bool) : Text → List Text
  | [] => [[]]
  | c :: t => (c :: t) :: if p c then remainders p t else []

/-- A word character stands on one side only of the place where `rest` starts in the text. -/
def onBoundary (whole rest : Text) : Bool :=
  (whole.take (whole.length - rest.length)).getLast?.any CodePoint.isWord !=
    rest.head?.any CodePoint.isWord

/-- The ways in which an expression goes on from a way of matching the front of `whole`, in the
order in which they are tried. -/
def ways (whole : Text) : Expression → Way → List Way
  | .empty, w => [w]
  | .char p, w => ((dropChar? p w.rest).map fun rest ↦ { w with rest }).toList
  | .boundary, w => if onBoundary whole w.rest then [w] else []
  | .andThen r s, w => (ways whole r w).flatMap (ways whole s)
  | .orElse r s, w => ways whole r w ++ ways whole s w
  | .greedy p, w => (remainders p w.rest).reverse.map fun rest ↦ { w with rest }
  | .lazy p, w => (remainders p w.rest).map fun rest ↦ { w with rest }
  | .group number r, w =>
    (ways whole r w).map fun after ↦
      { after with
        groups := (number, w.rest.take (w.rest.length - after.rest.length)) :: after.groups }

/-- The expression as a pattern: its first way of matching. -/
def pattern (r : Expression) : Pattern Groups := fun before t ↦
  (r.ways (before.toList ++ t) ⟨t, []⟩).head?.map fun w ↦ (w.groups, w.rest)

/-- The matches of an expression in a text, from left to right, without overlaps. -/
def matchesIn (r : Expression) (t : Text) : List (Occurrence Groups) := r.pattern.occurrences t

/-! ## Common expressions -/

/-- Blanks, as many as possible. -/
def blanks : Expression := .greedy CodePoint.isBlank

/-- A text, character by character. -/
def literal : Text → Expression
  | [] => .empty
  | a :: t => .andThen (.char (decide <| · = a)) (literal t)

/-- A word of small letters, in any letter case. -/
def word : Text → Expression
  | [] => .empty
  | a :: t => .andThen (.char (CodePoint.sameLetter a)) (word t)

/-- The first of some expressions that matches. -/
def anyOf : List Expression → Expression
  | [] => .char fun _ ↦ false
  | r :: rest => .orElse r (anyOf rest)

/-- Any characters, as few as possible. -/
def gap : Expression := .lazy fun _ ↦ true

/-! ## Expressions without a choice -/

variable {whole : Text} {r s : Expression} {l : List Expression} {f g : Way → Option Way} {w : Way}

/-- The expression matches in one way at most, the one that `f` gives. -/
def Reads (r : Expression) (f : Way → Option Way) : Prop :=
  ∀ whole w, r.ways whole w = (f w).toList

/-- What follows is what a function leaves of the text, and no group is kept. -/
def leaving (drop : Text → Option Text) (w : Way) : Option Way :=
  (drop w.rest).map fun rest ↦ { w with rest }

/-- The way that a function gives starts with none of the characters of a class. -/
def AvoidsFirst (p : CodePoint → Bool) (f : Way → Option Way) : Prop :=
  ∀ c t groups, p c = true → f ⟨c :: t, groups⟩ = none

theorem leaving_bind (first second : Text → Option Text) (w : Way) :
    (leaving first w).bind (leaving second) = leaving (fun t ↦ (first t).bind second) w := by
  simp only [leaving, Option.bind_map, Option.map_bind, Function.comp_def]

theorem reads_empty : Reads .empty some := fun _ _ ↦ rfl

theorem reads_char (p : CodePoint → Bool) : Reads (.char p) (leaving (dropChar? p)) :=
  fun _ _ ↦ rfl

theorem Reads.congr (hr : Reads r f) (h : ∀ w, f w = g w) : Reads r g := funext h ▸ hr

theorem Reads.andThen (hr : Reads r f) (hs : Reads s g) :
    Reads (.andThen r s) fun w ↦ (f w).bind g := by
  intro whole w
  dsimp only
  rw [ways, hr whole w]
  cases f w with
  | none => rfl
  | some after => exact (List.flatMap_singleton (ways whole s) after).trans (hs whole after)

theorem Reads.andThen_leaving {first second : Text → Option Text} (hr : Reads r (leaving first))
    (hs : Reads s (leaving second)) :
    Reads (.andThen r s) (leaving fun t ↦ (first t).bind second) :=
  (hr.andThen hs).congr (leaving_bind first second)

/-- Of two expressions that never both match, the one that matches is read. -/
theorem Reads.orElse (hr : Reads r f) (hs : Reads s g)
    (hapart : ∀ w, (f w).isSome = true → g w = none) :
    Reads (.orElse r s) fun w ↦ (f w).or (g w) := by
  intro whole w
  dsimp only
  rw [ways, hr whole w, hs whole w]
  cases hf : f w with
  | none => rw [Option.none_or, Option.toList_none, List.nil_append]
  | some after =>
    rw [hapart w (by rw [hf]; rfl), Option.or_none, Option.toList_none, List.append_nil]

theorem reads_literal (text : Text) : Reads (literal text) (leaving (Text.dropLiteral? text)) := by
  induction text with
  | nil => exact reads_empty
  | cons a text ih =>
    refine ((reads_char _).andThen_leaving ih).congr fun w ↦ congrArg (Option.map _) ?_
    cases w.rest with
    | nil => rfl
    | cons c t =>
      simp only [dropChar?, Text.dropLiteral?, decide_eq_true_eq, eq_comm (a := c)]
      split <;> rfl

/-! ## Repetitions -/

variable {β : Type} {p : CodePoint → Bool}

theorem avoidsFirst_bind (hf : AvoidsFirst p f) : AvoidsFirst p fun w ↦ (f w).bind g := by
  intro c t groups hc
  dsimp only
  rw [hf c t groups hc, Option.bind_none]

theorem avoidsFirst_literal {a : CodePoint} (ha : p a = false) (text : Text) :
    AvoidsFirst p (leaving (Text.dropLiteral? (a :: text))) := by
  intro c t groups hc
  have hne : a ≠ c := by
    rintro rfl
    rw [ha] at hc
    cases hc
  rw [leaving, Text.dropLiteral?, if_neg hne, Option.map_none]

/-- What starts with a character of the class cannot go on, so the longest repetition counts. -/
theorem flatMap_reverse_remainders {k : Text → List β} (hk : ∀ c t, p c = true → k (c :: t) = [])
    (t : Text) : (remainders p t).reverse.flatMap k = k (t.dropWhile p) := by
  induction t with
  | nil => exact List.append_nil _
  | cons c t ih =>
    rw [remainders, List.reverse_cons, List.flatMap_append, List.flatMap_singleton]
    by_cases hc : p c = true
    · rw [if_pos hc, ih, hk c t hc, List.append_nil, List.dropWhile_cons_of_pos hc]
    · rw [if_neg hc, List.dropWhile_cons_of_neg hc]
      rfl

/-- The longest repetition counts for the first way too, if what can go on within the repetition
goes on in the same way after it. -/
theorem head?_flatMap_reverse_remainders {k : Text → List β}
    (hk : ∀ c t b, p c = true → (k (c :: t)).head? = some b → (k (t.dropWhile p)).head? = some b)
    (t : Text) : ((remainders p t).reverse.flatMap k).head? = (k (t.dropWhile p)).head? := by
  induction t with
  | nil => exact congrArg List.head? (List.append_nil _)
  | cons c t ih =>
    rw [remainders, List.reverse_cons, List.flatMap_append, List.flatMap_singleton]
    by_cases hc : p c = true
    · rw [if_pos hc, List.head?_append, ih, List.dropWhile_cons_of_pos hc]
      cases hfirst : (k (t.dropWhile p)).head? with
      | some b => rfl
      | none =>
        rw [Option.none_or, Option.eq_none_iff_forall_ne_some]
        intro b hb
        rw [hk c t b hc hb] at hfirst
        cases hfirst
    · rw [if_neg hc, List.dropWhile_cons_of_neg hc]
      rfl

/-- Repetitions of any characters leave the ends of the text, the longest first. -/
theorem remainders_any (t : Text) : remainders (fun _ ↦ true) t = t.tails := by
  induction t with
  | nil => rfl
  | cons c t ih => rw [remainders, if_pos rfl, ih, List.tails]

/-- A greedy repetition leaves no choice before what does not start with its characters. -/
theorem Reads.afterGreedy (hr : Reads r f) (hf : AvoidsFirst p f) :
    Reads (.andThen (.greedy p) r) fun w ↦ f { w with rest := w.rest.dropWhile p } := by
  intro whole w
  rw [ways, ways, List.flatMap_map, flatMap_reverse_remainders fun c t hc ↦ ?_]
  · exact hr whole _
  · rw [hr, hf c t w.groups hc]
    rfl

/-! ## First ways -/

theorem head?_ways_andThen (hr : Reads r f) (whole : Text) (w : Way) :
    ((Expression.andThen r s).ways whole w).head? =
      (f w).bind fun after ↦ (s.ways whole after).head? := by
  rw [ways, hr whole w]
  cases f w with
  | none => rfl
  | some after => exact congrArg List.head? (List.flatMap_singleton (ways whole s) after)

theorem head?_ways_afterGreedy (hr : ∀ w, (r.ways whole w).head? = f w)
    (hf : ∀ c t groups after, p c = true → f ⟨c :: t, groups⟩ = some after →
      f ⟨t.dropWhile p, groups⟩ = some after) (w : Way) :
    ((Expression.andThen (.greedy p) r).ways whole w).head? =
      f { w with rest := w.rest.dropWhile p } := by
  rw [ways, ways, List.flatMap_map, head?_flatMap_reverse_remainders fun c t after hc hafter ↦ ?_]
  · exact hr _
  · rw [hr] at hafter ⊢
    exact hf c t w.groups after hc hafter

theorem head?_ways_gap (r : Expression) (whole : Text) (w : Way) :
    ((Expression.andThen gap r).ways whole w).head? =
      w.rest.tails.findSome? fun rest ↦ (r.ways whole { w with rest }).head? := by
  rw [ways, gap, ways, remainders_any, List.flatMap_map, List.head?_flatMap]

/-! ## Expressions in a row -/

/-- Expressions one after the other. -/
def inRow : List Expression → Expression
  | [] => .empty
  | r :: rest => .andThen r (inRow rest)

theorem Reads.cons (hr : Reads r f) (hl : Reads (inRow l) g) :
    Reads (inRow (r :: l)) fun w ↦ (f w).bind g := hr.andThen hl

theorem Reads.last (hr : Reads r f) : Reads (inRow [r]) f :=
  (hr.andThen reads_empty).congr fun _ ↦ Option.bind_fun_some _

theorem Reads.blanks_cons (hl : Reads (inRow l) g) (hg : AvoidsFirst CodePoint.isBlank g) :
    Reads (inRow (blanks :: l)) fun w ↦ g { w with rest := w.rest.trimLeft } := hl.afterGreedy hg

theorem ways_inRow_append (whole : Text) (l l' : List Expression) (w : Way) :
    (inRow (l ++ l')).ways whole w = ((inRow l).ways whole w).flatMap ((inRow l').ways whole) := by
  induction l generalizing w with
  | nil => exact (List.flatMap_singleton _ w).symm
  | cons r l ih =>
    rw [List.cons_append, inRow, inRow, ways, ways, List.flatMap_assoc]
    exact congrArg (List.flatMap · _) (funext ih)

theorem head?_ways_inRow_append (hl : Reads (inRow l) f) (whole : Text) (l' : List Expression)
    (w : Way) : ((inRow (l ++ l')).ways whole w).head? =
      (f w).bind fun after ↦ ((inRow l').ways whole after).head? := by
  rw [← head?_ways_andThen hl, ways_inRow_append, ways]

/-! ## Groups -/

/-- What a function finds at the front of the text is kept under a number. -/
def keeping (number : Nat) (find : Text → Option (Text × Text)) (w : Way) : Option Way :=
  (find w.rest).map fun (found, rest) ↦ ⟨rest, (number, found) :: w.groups⟩

theorem Reads.group {drop : Text → Option Text} (hr : Reads r (leaving drop)) (number : Nat) :
    Reads (.group number r) (keeping number fun t ↦
      (drop t).map fun rest ↦ (t.take (t.length - rest.length), rest)) := by
  intro whole w
  rw [ways, hr whole w, leaving, keeping]
  cases drop w.rest <;> rfl

theorem reads_anyOf {find : Text → Expression} {drop : Text → Text → Option Text}
    (hreads : ∀ name, Reads (find name) (leaving (drop name))) {names : List Text}
    (hapart : names.Pairwise fun a b ↦ ∀ t, (drop a t).isSome = true → drop b t = none) :
    Reads (anyOf (names.map find)) (leaving fun t ↦ names.findSome? (drop · t)) := by
  induction names with
  | nil =>
    intro whole w
    rw [List.map_nil, anyOf, ways]
    cases w.rest <;> rfl
  | cons a names ih =>
    obtain ⟨hfirst, hrest⟩ := List.pairwise_cons.mp hapart
    refine ((hreads a).orElse (ih hrest) fun w hsome ↦ ?_).congr fun w ↦ ?_
    · have hnone : names.findSome? (drop · w.rest) = none :=
        List.findSome?_eq_none_iff.mpr fun b hb ↦
          hfirst b hb w.rest (by simpa [leaving] using hsome)
      rw [leaving, hnone, Option.map_none]
    · rw [leaving, leaving, leaving, List.findSome?_cons]
      cases drop a w.rest <;> rfl

/-! ## Groups of repetitions -/

/-- What a greedy repetition leaves of the text is what follows the characters that it takes. -/
private theorem take_length_sub_dropWhile (p : CodePoint → Bool) (t : Text) :
    t.take (t.length - (t.dropWhile p).length) = t.takeWhile p := by
  have hlength := congrArg List.length (List.takeWhile_append_dropWhile (p := p) (l := t))
  rw [List.length_append] at hlength
  have htake : t.length - (t.dropWhile p).length = (t.takeWhile p).length := by omega
  rw [htake]
  exact (List.prefix_iff_eq_take.mp (List.takeWhile_prefix p)).symm

/-- A greedy repetition that is kept, before expressions that do not start with its characters. -/
theorem Reads.keepGreedy (hl : Reads (inRow l) g) (hg : AvoidsFirst p g) (number : Nat) :
    Reads (inRow (.group number (.greedy p) :: l)) fun w ↦
      g ⟨w.rest.dropWhile p, (number, w.rest.takeWhile p) :: w.groups⟩ := by
  intro whole w
  rw [inRow, ways, ways, ways, List.map_map, List.flatMap_map,
    flatMap_reverse_remainders fun c t hc ↦ ?_]
  · dsimp only [Function.comp_apply]
    rw [hl, take_length_sub_dropWhile]
  · exact (hl whole _).trans (congrArg Option.toList (hg c t _ hc))

theorem Reads.keepGreedyNonempty (hl : Reads (inRow l) g) (hg : AvoidsFirst p g) (number : Nat) :
    Reads (inRow (.group number (.andThen (.char p) (.greedy p)) :: l)) fun w ↦
      if (w.rest.takeWhile p).isEmpty then none
      else g ⟨w.rest.dropWhile p, (number, w.rest.takeWhile p) :: w.groups⟩ := by
  intro whole w
  obtain ⟨t, groups⟩ := w
  rw [inRow, ways, ways, ways, ways]
  cases t with
  | nil => rfl
  | cons c t =>
    by_cases hc : p c = true
    · rw [dropChar?, if_pos hc, Option.map_some, Option.toList_some, List.flatMap_singleton, ways,
        List.map_map, List.flatMap_map, flatMap_reverse_remainders fun d u hd ↦ ?_]
      · dsimp only [Function.comp_apply]
        rw [← List.dropWhile_cons_of_pos hc, hl, take_length_sub_dropWhile,
          List.takeWhile_cons_of_pos hc]
        rfl
      · exact (hl whole _).trans (congrArg Option.toList (hg d u _ hd))
    · dsimp only
      rw [dropChar?, if_neg hc, List.takeWhile_cons_of_neg hc]
      rfl

/-! ## Boundaries of words -/

/-- A boundary before expressions that start with a word character is a place after which no word
goes on. -/
theorem head?_ways_boundary {before : Option CodePoint} {t : Text}
    (hword : t.head?.any CodePoint.isWord = false →
      ((inRow l).ways (before.toList ++ t) ⟨t, []⟩).head? = none) :
    ((inRow (.boundary :: l)).ways (before.toList ++ t) ⟨t, []⟩).head? =
      if before.any CodePoint.isWord then none
      else ((inRow l).ways (before.toList ++ t) ⟨t, []⟩).head? := by
  have hbefore : (before.toList ++ t).take ((before.toList ++ t).length - t.length) =
      before.toList := by
    rw [List.length_append, Nat.add_sub_cancel, List.take_left]
  have hlast : before.toList.getLast? = before := by cases before <;> rfl
  have hplace : onBoundary (before.toList ++ t) t =
      (before.any CodePoint.isWord != t.head?.any CodePoint.isWord) := by
    rw [onBoundary, hbefore, hlast]
  rw [inRow, ways, ways, hplace]
  cases hafter : t.head?.any CodePoint.isWord with
  | false =>
    rw [hword hafter]
    cases before.any CodePoint.isWord with
    | false => rfl
    | true => exact (congrArg List.head? (List.flatMap_singleton _ _)).trans (hword hafter)
  | true =>
    cases before.any CodePoint.isWord with
    | false => exact congrArg List.head? (List.flatMap_singleton _ _)
    | true => rfl

end Expression

end RouteCatalog
