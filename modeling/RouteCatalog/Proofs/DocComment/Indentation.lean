import RouteCatalog.Proofs.DocComment.ReadBack
import RouteCatalog.Proofs.Text.Spacing

/-!
# Texts that differ in indentation

Spaces and tabs at the start of a line are indentation when an asterisk or nothing at all follows
them. Texts that differ in the indentation of their lines, the first apart (`Text.Reindented`),
differ in blanks at line starts only (`Text.respacing_reindented`). The relation goes down to the
ends and the fronts of texts that matter: without blanks at either end, up to a character, and line
by line.
-/

namespace RouteCatalog

namespace Text

variable {t t' : Text}

/-! ## Trimming -/

theorem trimRight_append {x : Text} (ht : t.trimRight ≠ []) :
    (x ++ t).trimRight = x ++ t.trimRight := by
  induction x with
  | nil => rfl
  | cons c x ih =>
    rw [List.cons_append, trimRight, ih]
    split
    · next hnil => exact absurd hnil (List.append_ne_nil_of_right_ne_nil x ht)
    · rfl

theorem trimRight_of_isBlank (h : ∀ c ∈ t, c.isBlank = true) : t.trimRight = [] := by
  induction t with
  | nil => rfl
  | cons c t ih =>
    obtain ⟨hc, ht⟩ := List.forall_mem_cons.mp h
    rw [trimRight, ih ht]
    exact if_pos hc

/-! ## Indentation -/

/-- Spaces and tabs only. -/
def Indentation (t : Text) : Prop := ∀ c ∈ t, c = CodePoint.ofChar ' ' ∨ c = CodePoint.ofChar '\t'

instance (t : Text) : Decidable (Indentation t) := inferInstanceAs (Decidable (∀ c ∈ t, _))

/-- The texts differ in the indentation of their lines other than the first. -/
inductive Reindented : Text → Text → Prop
  | nil : Reindented [] []
  | cons (c : CodePoint) {t t' : Text} : Reindented t t' → Reindented (c :: t) (c :: t')
  /-- A line that starts with an asterisk, indented in two ways. -/
  | star {s s' t t' : Text} : Indentation s → Indentation s' → Reindented t t' →
      Reindented (CodePoint.ofChar '\n' :: (s ++ CodePoint.ofChar '*' :: t))
        (CodePoint.ofChar '\n' :: (s' ++ CodePoint.ofChar '*' :: t'))
  /-- An empty line at the end, indented in two ways. -/
  | last {s s' : Text} : Indentation s → Indentation s' →
      Reindented (CodePoint.ofChar '\n' :: s) (CodePoint.ofChar '\n' :: s')

theorem Indentation.all {p : CodePoint → Bool} {s : Text} (hs : Indentation s)
    (hspace : p ' ' = true) (htab : p '\t' = true) : ∀ c ∈ s, p c = true := by
  intro c hc
  rcases hs c hc with rfl | rfl
  · exact hspace
  · exact htab

theorem Indentation.isBlank {s : Text} (hs : Indentation s) : ∀ c ∈ s, c.isBlank = true :=
  hs.all (by decide) (by decide)

theorem Indentation.notMem {s : Text} (hs : Indentation s) {c : CodePoint}
    (hspace : c ≠ CodePoint.ofChar ' ') (htab : c ≠ CodePoint.ofChar '\t') : c ∉ s :=
  fun hc ↦ (hs c hc).elim hspace htab

namespace Reindented

theorem refl (t : Text) : Reindented t t := by
  induction t with
  | nil => exact .nil
  | cons c t ih => exact .cons c ih

theorem symm (h : Reindented t t') : Reindented t' t := by
  induction h with
  | nil => exact .nil
  | cons c _ ih => exact .cons c ih
  | star hs hs' _ ih => exact .star hs' hs ih
  | last hs hs' => exact .last hs' hs

theorem append_left (x : Text) (h : Reindented t t') : Reindented (x ++ t) (x ++ t') := by
  induction x with
  | nil => exact h
  | cons c x ih => exact .cons c ih

/-- Both start with the same character. -/
theorem head? (h : Reindented t t') : t'.head? = t.head? := by cases h <;> rfl

theorem isEmpty (h : Reindented t t') : t'.isEmpty = t.isEmpty := by cases h <;> rfl

/-- The same characters stand in both, but for spaces and tabs. -/
theorem mem (h : Reindented t t') {c : CodePoint} (hspace : c ≠ CodePoint.ofChar ' ')
    (htab : c ≠ CodePoint.ofChar '\t') (hc : c ∈ t) : c ∈ t' := by
  induction h with
  | nil => exact hc
  | cons d _ ih =>
    rcases List.mem_cons.mp hc with rfl | hc
    · exact List.mem_cons_self
    · exact List.mem_cons_of_mem d (ih hc)
  | @star s s' t t' hs hs' _ ih =>
    simp only [List.mem_cons, List.mem_append] at hc ⊢
    exact hc.imp_right fun hc ↦ .inr ((hc.resolve_left (hs.notMem hspace htab)).imp_right ih)
  | @last s s' hs hs' =>
    rcases List.mem_cons.mp hc with rfl | hc
    · exact List.mem_cons_self
    · exact absurd hc (hs.notMem hspace htab)

theorem contains_eq (h : Reindented t t') {c : CodePoint} (hspace : c ≠ CodePoint.ofChar ' ')
    (htab : c ≠ CodePoint.ofChar '\t') : t'.contains c = t.contains c := by
  rw [Bool.eq_iff_iff, List.contains_iff_mem, List.contains_iff_mem]
  exact ⟨h.symm.mem hspace htab, h.mem hspace htab⟩

theorem trimLeft (h : Reindented t t') : Reindented t.trimLeft t'.trimLeft := by
  have hline (s rest : Text) (hs : Indentation s) :
      Text.trimLeft (CodePoint.ofChar '\n' :: (s ++ rest)) = rest.trimLeft := by
    have hblank : ∀ c ∈ CodePoint.ofChar '\n' :: s, c.isBlank = true :=
      List.forall_mem_cons.mpr ⟨by decide, hs.isBlank⟩
    rw [Text.trimLeft, ← List.cons_append, List.dropWhile_append_of_pos hblank, Text.trimLeft]
  induction h with
  | nil => exact .nil
  | @cons c t t' h ih =>
    by_cases hc : c.isBlank = true
    · rw [Text.trimLeft, Text.trimLeft, List.dropWhile_cons_of_pos hc,
        List.dropWhile_cons_of_pos hc]
      exact ih
    · rw [Text.trimLeft, Text.trimLeft, List.dropWhile_cons_of_neg hc,
        List.dropWhile_cons_of_neg hc]
      exact .cons c h
  | star hs hs' h _ =>
    rw [hline _ _ hs, hline _ _ hs']
    exact .cons _ h
  | @last s s' hs hs' =>
    have hs₀ := hline s [] hs
    have hs₁ := hline s' [] hs'
    rw [List.append_nil] at hs₀ hs₁
    rw [hs₀, hs₁]
    exact .nil

end Reindented

theorem respacing_reindented : Respacing Reindented where
  head h := by
    obtain ⟨s, hs⟩ := List.head?_eq_some_iff.mp h.head?
    exact ⟨s, hs⟩
  tail {c t s} hc h := by
    cases h with
    | cons _ h => exact h
    | star => exact absurd rfl hc
    | last => exact absurd rfl hc
  trim h := h.trimLeft

namespace Reindented

/-- The front up to a character that is no part of any indentation, and what follows. -/
theorem span {p : CodePoint → Bool} (hfeed : p '\n' = true) (hspace : p ' ' = true)
    (htab : p '\t' = true) (hstar : p '*' = true) (h : Reindented t t') :
    Reindented (t.takeWhile p) (t'.takeWhile p) ∧ Reindented (t.dropWhile p) (t'.dropWhile p) := by
  have hline {s : Text} (hs : Indentation s) : ∀ c ∈ CodePoint.ofChar '\n' :: s, p c = true :=
    List.forall_mem_cons.mpr ⟨hfeed, hs.all hspace htab⟩
  induction h with
  | nil => exact ⟨.nil, .nil⟩
  | @cons c t t' h ih =>
    by_cases hc : p c = true
    · simp only [List.takeWhile_cons_of_pos hc, List.dropWhile_cons_of_pos hc]
      exact ⟨.cons c ih.1, ih.2⟩
    · simp only [List.takeWhile_cons_of_neg hc, List.dropWhile_cons_of_neg hc]
      exact ⟨.nil, .cons c h⟩
  | star hs hs' h ih =>
    simp only [← List.cons_append, List.takeWhile_append_of_pos (hline hs),
      List.takeWhile_append_of_pos (hline hs'), List.dropWhile_append_of_pos (hline hs),
      List.dropWhile_append_of_pos (hline hs'), List.takeWhile_cons_of_pos hstar,
      List.dropWhile_cons_of_pos hstar]
    exact ⟨.star hs hs' ih.1, ih.2⟩
  | last hs hs' =>
    rw [List.takeWhile_eq_self_iff.mpr (hline hs), List.takeWhile_eq_self_iff.mpr (hline hs'),
      List.dropWhile_eq_nil_iff.mpr (hline hs), List.dropWhile_eq_nil_iff.mpr (hline hs')]
    exact ⟨.last hs hs', .nil⟩

theorem takeWhile_eq {p : CodePoint → Bool} (hfeed : p '\n' = false) (h : Reindented t t') :
    t'.takeWhile p = t.takeWhile p ∧ Reindented (t.dropWhile p) (t'.dropWhile p) := by
  have hneg : ¬ p (CodePoint.ofChar '\n') = true := Bool.not_eq_true _ ▸ hfeed
  induction h with
  | nil => exact ⟨rfl, .nil⟩
  | @cons c t t' h ih =>
    by_cases hc : p c = true
    · simp only [List.takeWhile_cons_of_pos hc, List.dropWhile_cons_of_pos hc]
      exact ⟨congrArg (c :: ·) ih.1, ih.2⟩
    · simp only [List.takeWhile_cons_of_neg hc, List.dropWhile_cons_of_neg hc]
      exact ⟨trivial, .cons c h⟩
  | star hs hs' h _ =>
    simp only [List.takeWhile_cons_of_neg hneg, List.dropWhile_cons_of_neg hneg]
    exact ⟨trivial, .star hs hs' h⟩
  | last hs hs' =>
    simp only [List.takeWhile_cons_of_neg hneg, List.dropWhile_cons_of_neg hneg]
    exact ⟨trivial, .last hs hs'⟩

theorem trimRight (h : Reindented t t') : Reindented t.trimRight t'.trimRight := by
  have hline {s t : Text} :
      Text.trimRight (CodePoint.ofChar '\n' :: (s ++ CodePoint.ofChar '*' :: t)) =
        CodePoint.ofChar '\n' :: (s ++ CodePoint.ofChar '*' :: t.trimRight) := by
    have hstar : Text.trimRight (CodePoint.ofChar '*' :: t) = CodePoint.ofChar '*' :: t.trimRight :=
      trimRight_cons_of_unblank (by decide) t
    have hrest := trimRight_append (x := CodePoint.ofChar '\n' :: s) (hstar ▸ List.cons_ne_nil _ _)
    rwa [hstar] at hrest
  induction h with
  | nil => exact .nil
  | @cons c t t' _ ih =>
    rw [Text.trimRight, Text.trimRight]
    cases ht : t.trimRight with
    | nil =>
      have hempty := ih.isEmpty
      rw [ht, List.isEmpty_nil, List.isEmpty_iff] at hempty
      rw [hempty]
      exact refl _
    | cons d u =>
      rw [ht] at ih
      obtain ⟨u', hu'⟩ := List.head?_eq_some_iff.mp ih.head?
      rw [hu'] at ih ⊢
      exact .cons c ih
  | star hs hs' _ ih =>
    rw [hline, hline]
    exact .star hs hs' ih
  | last hs hs' =>
    rw [trimRight_of_isBlank (List.forall_mem_cons.mpr ⟨by decide, hs.isBlank⟩),
      trimRight_of_isBlank (List.forall_mem_cons.mpr ⟨by decide, hs'.isBlank⟩)]
    exact .nil

theorem trim (h : Reindented t t') : Reindented t.trim t'.trim := h.trimLeft.trimRight

theorem lower (h : Reindented t t') : Reindented t.lower t'.lower := by
  have hlower {s : Text} (hs : Indentation s) : s.lower = s := by
    induction s with
    | nil => rfl
    | cons c s ih =>
      obtain ⟨hc, hs⟩ := List.forall_mem_cons.mp hs
      rw [Text.lower, List.flatMap_cons, ← Text.lower, ih hs]
      rcases hc with rfl | rfl <;> rfl
  have hline {s : Text} (hs : Indentation s) (rest : Text) :
      Text.lower (CodePoint.ofChar '\n' :: (s ++ rest)) =
        CodePoint.ofChar '\n' :: (s ++ rest.lower) := by
    rw [Text.lower, List.flatMap_cons, List.flatMap_append, ← Text.lower, ← Text.lower, hlower hs]
    rfl
  induction h with
  | nil => exact .nil
  | cons c _ ih => exact ih.append_left c.lower
  | star hs hs' _ ih =>
    rw [hline hs, hline hs']
    exact .star hs hs' ih
  | @last s s' hs hs' =>
    rw [Text.lower, Text.lower, List.flatMap_cons, List.flatMap_cons, ← Text.lower, ← Text.lower,
      hlower hs, hlower hs']
    exact .last hs hs'

theorem eq_of_singleton {c : CodePoint} (hc : c ≠ CodePoint.ofChar '\n')
    (h : Reindented [c] t') : t' = [c] := by
  obtain ⟨s, rfl⟩ := respacing_reindented.head h
  have hempty := (respacing_reindented.tail hc h).isEmpty
  rw [List.isEmpty_nil, List.isEmpty_iff] at hempty
  rw [hempty]

/-- A text that ends a comment still does, and what stands before that is reindented. -/
theorem exists_of_closed {x : Text} (h : Reindented (x ++ "*/") t') :
    ∃ x', t' = x' ++ "*/" ∧ Reindented x x' := by
  have hclosing : Text.ofString "*/" = [CodePoint.ofChar '*', CodePoint.ofChar '/'] := rfl
  have hslash {s : Text} (h : Reindented [CodePoint.ofChar '/'] s) : s = [CodePoint.ofChar '/'] :=
    h.eq_of_singleton (by decide)
  rw [hclosing] at h ⊢
  generalize ht : x ++ [CodePoint.ofChar '*', CodePoint.ofChar '/'] = t at h
  induction h generalizing x with
  | nil => exact absurd ht (List.append_ne_nil_of_right_ne_nil _ (List.cons_ne_nil _ _))
  | @cons c t t' h ih =>
    cases x with
    | nil =>
      obtain ⟨rfl, rfl⟩ := List.cons.inj ht
      exact ⟨[], by rw [hslash h]; rfl, .nil⟩
    | cons d x =>
      obtain ⟨rfl, rfl⟩ := List.cons.inj ht
      obtain ⟨x', rfl, hx⟩ := ih rfl
      exact ⟨d :: x', rfl, .cons d hx⟩
  | @star s s' t t' hs hs' h ih =>
    have hbare {t' : Text} (h : Reindented [CodePoint.ofChar '/'] t') :
        ∃ x', CodePoint.ofChar '\n' :: (s' ++ CodePoint.ofChar '*' :: t') =
          x' ++ [CodePoint.ofChar '*', CodePoint.ofChar '/'] ∧
            Reindented (CodePoint.ofChar '\n' :: s) x' :=
      ⟨CodePoint.ofChar '\n' :: s', by rw [hslash h]; rfl, .last hs hs'⟩
    rw [← List.cons_append] at ht
    rcases List.append_eq_append_iff.mp ht with ⟨y, hline, hend⟩ | ⟨y, rfl, hend⟩
    · cases y with
      | nil =>
        obtain rfl := (List.cons.inj hend).2
        rw [← List.append_nil x, ← hline]
        exact hbare h
      | cons d y =>
        -- The asterisk of the end would be part of the indentation.
        obtain ⟨rfl, -⟩ := List.cons.inj hend
        have hmem : CodePoint.ofChar '*' ∈ CodePoint.ofChar '\n' :: s :=
          hline ▸ List.mem_append_right x List.mem_cons_self
        exact absurd ((List.mem_cons.mp hmem).resolve_left (by decide))
          (hs.notMem (by decide) (by decide))
    · cases y with
      | nil =>
        obtain rfl := (List.cons.inj hend).2
        rw [List.append_nil]
        exact hbare h
      | cons d y =>
        rw [List.cons_append, List.cons.injEq] at hend
        obtain ⟨rfl, hend⟩ := hend
        obtain ⟨x', rfl, hx⟩ := ih hend.symm
        refine ⟨CodePoint.ofChar '\n' :: (s' ++ CodePoint.ofChar '*' :: x'), ?_, .star hs hs' hx⟩
        rw [List.cons_append, List.append_assoc, List.cons_append]
  | @last s s' hs hs' =>
    have hmem : CodePoint.ofChar '/' ∈ CodePoint.ofChar '\n' :: s :=
      ht ▸ List.mem_append_right x (List.mem_cons_of_mem _ List.mem_cons_self)
    exact absurd ((List.mem_cons.mp hmem).resolve_left (by decide))
      (hs.notMem (by decide) (by decide))

end Reindented

/-! ## Lines -/

/-- The line starts with an asterisk, and is indented in another way. -/
def StarLine (line line' : Text) : Prop :=
  ∃ s s' t, Indentation s ∧ Indentation s' ∧ line = s ++ CodePoint.ofChar '*' :: t ∧
    line' = s' ++ CodePoint.ofChar '*' :: t

theorem lines_lineFeed (t : Text) : lines (CodePoint.ofChar '\n' :: t) = [] :: t.lines := by
  rw [lines, splitOn, List.foldr_cons, if_pos rfl]
  rfl

/-- Texts with the same lines, but for the indentation of lines that start with an asterisk. -/
theorem reindented_join {more more' : List Text} (first : Text)
    (h : List.Forall₂ (fun line line' ↦ line' = line ∨ StarLine line line') more more') :
    Reindented (join "\n" (first :: more)) (join "\n" (first :: more')) := by
  have hfeed (t : Text) : Text.ofString "\n" ++ t = CodePoint.ofChar '\n' :: t := rfl
  induction h generalizing first with
  | nil => exact .refl _
  | @cons line line' more more' hline _ ih =>
    rw [join_cons_cons, join_cons_cons, List.append_assoc, List.append_assoc, hfeed, hfeed]
    refine .append_left first ?_
    rcases hline with rfl | ⟨s, s', t, hs, hs', rfl, rfl⟩
    · exact .cons _ (ih line')
    · have hstar (more : List Text) : join "\n" ((CodePoint.ofChar '*' :: t) :: more) =
          CodePoint.ofChar '*' :: join "\n" (t :: more) :=
        join_append_cons _ [CodePoint.ofChar '*'] t more
      rw [join_append_cons, join_append_cons, hstar, hstar]
      exact .star hs hs' (ih t)

theorem Reindented.exists_lines (h : Reindented t t') :
    ∃ first more more', t.lines = first :: more ∧ t'.lines = first :: more' ∧
      List.Forall₂ (fun line line' ↦ line' = line ∨ StarLine line line' ∨
        Indentation line ∧ Indentation line') more more' := by
  induction h with
  | nil => exact ⟨[], [], [], rfl, rfl, .nil⟩
  | @cons c t t' _ ih =>
    obtain ⟨first, more, more', hlines, hlines', hmore⟩ := ih
    by_cases hc : c = CodePoint.ofChar '\n'
    · subst hc
      rw [lines_lineFeed, lines_lineFeed, hlines, hlines']
      exact ⟨[], _, _, rfl, rfl, .cons (.inl rfl) hmore⟩
    · have hline : CodePoint.ofChar '\n' ∉ [c] := mt List.mem_singleton.mp (Ne.symm hc)
      exact ⟨c :: first, more, more', lines_append hline hlines, lines_append hline hlines', hmore⟩
  | @star s s' t t' hs hs' _ ih =>
    obtain ⟨first, more, more', hlines, hlines', hmore⟩ := ih
    have hline {s t : Text} (hs : Indentation s) {more : List Text} (h : t.lines = first :: more) :
        lines (CodePoint.ofChar '\n' :: (s ++ CodePoint.ofChar '*' :: t)) =
          [] :: (s ++ CodePoint.ofChar '*' :: first) :: more := by
      have hfront : CodePoint.ofChar '\n' ∉ s ++ [CodePoint.ofChar '*'] := by
        rw [List.mem_append, not_or]
        exact ⟨hs.notMem (by decide) (by decide), by decide⟩
      have happend := lines_append hfront h
      rw [List.append_assoc, List.append_assoc] at happend
      rw [lines_lineFeed]
      exact congrArg ([] :: ·) happend
    refine ⟨[], _, _, hline hs hlines, hline hs' hlines', .cons (.inr (.inl ?_)) hmore⟩
    exact ⟨s, s', first, hs, hs', rfl, rfl⟩
  | @last s s' hs hs' =>
    have hline {s : Text} (hs : Indentation s) :
        lines (CodePoint.ofChar '\n' :: s) = [[], s] := by
      have honeLine : CodePoint.ofChar '\n' ∉ s := hs.notMem (by decide) (by decide)
      have happend := lines_append (t := []) honeLine rfl
      rw [List.append_nil] at happend
      rw [lines_lineFeed, happend]
    exact ⟨[], _, _, hline hs, hline hs', .cons (.inr (.inr ⟨hs, hs'⟩)) .nil⟩

/-! ## Words -/

/-- A word at the front of a text. -/
def wordPattern (word : Text) : Pattern Unit := fun _ t ↦
  (dropLiteral? word t).map fun rest ↦ ((), rest)

theorem hasInside_eq_isSome_first? (c : CodePoint) (word t : Text) :
    hasInside (c :: word) t = ((wordPattern (c :: word)).first? none t).isSome := by
  rw [hasInside]
  induction t with
  | nil => rfl
  | cons d t ih =>
    rw [breakAt?, Pattern.first?, wordPattern]
    cases dropLiteral? (c :: word) (d :: t) with
    | some rest => rfl
    | none =>
      dsimp only [Option.map_none]
      rw [Option.isSome_map, ih, Pattern.first?_congr (fun _ _ _ ↦ rfl) none (some d)]

/-- A word of one line that starts with no blank stands in both texts or in none. -/
theorem Reindented.hasInside {word : Text} (hne : word ≠ [])
    (hstart : DocComment.StartsUnblank word) (hword : CodePoint.ofChar '\n' ∉ word)
    (h : Reindented t t') : Text.hasInside word t' = Text.hasInside word t := by
  obtain ⟨c, word, rfl⟩ := List.exists_cons_of_ne_nil hne
  have hkeeps : Keeps Reindented (fun _ _ ↦ True) (wordPattern (c :: word) none) := by
    intro t t' found ht hfound
    obtain ⟨rest, hrest, -⟩ := Option.map_eq_some_iff.mp hfound
    obtain ⟨rest', hrest', -⟩ := respacing_reindented.keeps_dropLiteral? hword ht hrest
    exact ⟨_, Option.map_eq_some_iff.mpr ⟨rest', hrest', rfl⟩, trivial⟩
  have hblank (d : CodePoint) (t : Text) (hd : d.isBlank = true) :
      wordPattern (c :: word) none (d :: t) = none := by
    rw [wordPattern, dropLiteral?, if_neg, Option.map_none]
    rintro rfl
    rw [hstart c rfl] at hd
    cases hd
  have hfirst := respacing_reindented.keeps_first? (fun _ _ _ ↦ rfl) hblank hkeeps
    fun _ _ ht ↦ hkeeps.declines symm ht
  rw [hasInside_eq_isSome_first?, hasInside_eq_isSome_first?]
  cases hfound : (wordPattern (c :: word)).first? none t with
  | none => rw [hfirst.declines symm h hfound]
  | some found =>
    obtain ⟨found', hfound', -⟩ := hfirst h hfound
    rw [hfound']
    rfl

end Text

end RouteCatalog
