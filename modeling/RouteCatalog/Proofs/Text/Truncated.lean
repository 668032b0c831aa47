import Mathlib.Data.List.Basic
import RouteCatalog.Proofs.Text.Pattern
import RouteCatalog.Text.Split

/-!
# Occurrences in the front of a text

A pattern that looks no further than where it ends finds the same occurrences when the text goes on,
and then perhaps others. It may also have started to recognise something that ends past the text; as
long as nothing after that start could be recognised without the rest, the occurrences in the text
are those of the longer text that end within it (`Pattern.Incremental.occurrences_append`). They are
the first of them (`Pattern.Incremental.occurrences_isPrefix`).
-/

namespace RouteCatalog

/-! ## Literals in the front of a text -/

namespace Text

variable {literal t before rest : Text}

theorem dropLiteral?_append (more : Text) (h : dropLiteral? literal t = some rest) :
    dropLiteral? literal (t ++ more) = some (rest ++ more) := by
  rw [dropLiteral?_eq_some_iff] at h ⊢
  rw [h, List.append_assoc]

/-- A literal is recognised with more text only when the text is too short for it. -/
theorem length_lt_of_dropLiteral?_append {more : Text} (h : dropLiteral? literal t = none)
    (hmore : dropLiteral? literal (t ++ more) = some rest) : t.length < literal.length := by
  by_contra hlong
  have hfront : literal <+: t :=
    List.prefix_of_prefix_length_le ⟨rest, (dropLiteral?_eq_some_iff.mp hmore).symm⟩
      (List.prefix_append t more) (Nat.le_of_not_lt hlong)
  obtain ⟨after, rfl⟩ := hfront
  rw [dropLiteral?_eq_some_iff.mpr rfl] at h
  cases h

theorem breakAt?_eq_none_iff : breakAt? literal t = none ↔ ¬ literal <:+: t := by
  constructor
  · rintro h ⟨before, rest, rfl⟩
    rw [List.append_assoc] at h
    induction before with
    | nil =>
      have hdrop : dropLiteral? literal (literal ++ rest) = some rest :=
        dropLiteral?_eq_some_iff.mpr rfl
      rw [List.nil_append] at h
      cases htext : literal ++ rest with
      | nil =>
        rw [htext, breakAt?, ← htext, hdrop] at h
        cases h
      | cons c t =>
        rw [htext, breakAt?, ← htext, hdrop] at h
        cases h
    | cons c before ih =>
      rw [List.cons_append, breakAt?] at h
      split at h
      · cases h
      · exact ih (Option.map_eq_none_iff.mp h)
  · intro h
    by_contra hsome
    obtain ⟨⟨before, rest⟩, hfound⟩ := Option.ne_none_iff_exists'.mp hsome
    exact h ⟨before, rest, (eq_append_of_breakAt? hfound).symm⟩

theorem breakAt?_append (more : Text) (h : breakAt? literal t = some (before, rest)) :
    breakAt? literal (t ++ more) = some (before, rest ++ more) := by
  induction t generalizing before with
  | nil =>
    rw [breakAt?, Option.map_eq_some_iff] at h
    obtain ⟨after, hafter, heq⟩ := h
    obtain ⟨rfl, rfl⟩ := Prod.mk.inj heq
    have hdrop := dropLiteral?_append more hafter
    cases more with
    | nil =>
      rw [List.nil_append, List.append_nil, breakAt?, hafter]
      rfl
    | cons c more =>
      rw [List.nil_append] at hdrop ⊢
      rw [breakAt?, hdrop]
  | cons c t ih =>
    have hlong := congrArg List.length (eq_append_of_breakAt? h)
    rw [List.length_append, List.length_append] at hlong
    rw [breakAt?] at h
    rw [List.cons_append, breakAt?]
    split at h
    · next hfound =>
      cases h
      rw [← List.cons_append, dropLiteral?_append more hfound]
    · next hnone =>
      obtain ⟨⟨b, r⟩, hb, heq⟩ := Option.map_eq_some_iff.mp h
      cases heq
      have hstill : dropLiteral? literal (c :: (t ++ more)) = none := by
        by_contra hsome
        obtain ⟨after, hafter⟩ := Option.ne_none_iff_exists'.mp hsome
        have := length_lt_of_dropLiteral?_append hnone hafter
        omega
      rw [hstill, ih hb]
      rfl

theorem length_lt_of_breakAt?_append {more : Text} (h : breakAt? literal t = none)
    (hmore : breakAt? literal (t ++ more) = some (before, rest)) : rest.length < more.length := by
  by_contra hends
  have heq := eq_append_of_breakAt? hmore
  have hlength := congrArg List.length heq
  rw [List.length_append, List.length_append] at hlength
  have hfront : before ++ literal <+: t :=
    List.prefix_of_prefix_length_le ⟨rest, heq.symm⟩ (List.prefix_append t more) (by omega)
  exact breakAt?_eq_none_iff.mp h ((List.infix_append' before literal []).trans
    (by rw [List.append_nil]; exact hfront.isInfix))

end Text

/-! ## Occurrences in the front of a text -/

namespace Pattern

variable {α : Type} {p : Pattern α} {o : Occurrence α} {skip start : Nat}
  {before : Option CodePoint} {t more : Text}

/-- More text never changes what is recognised, and nothing is recognised past the start of what is
recognised with more text only. -/
structure Incremental (p : Pattern α) : Prop where
  /-- One character at least is recognised. -/
  shortens : ∀ {before t v rest}, p before t = some (v, rest) → rest.length < t.length
  /-- What is recognised does not depend on what follows it. -/
  extend : ∀ {before t v rest} more, p before t = some (v, rest) →
    p before (t ++ more) = some (v, rest ++ more)
  /-- What is recognised with more text only ends in it, and hides all that starts later. -/
  hides : ∀ {before t more v rest}, p before t = none → p before (t ++ more) = some (v, rest) →
    rest.length < more.length ∧ ∀ tail, tail <:+ t → ∀ before, p before tail = none

theorem occurrencesFrom_of_none (h : ∀ tail, tail <:+ t → ∀ before, p before tail = none) :
    p.occurrencesFrom 0 start before t = [] := by
  induction t generalizing start before with
  | nil => rfl
  | cons c t ih =>
    rw [occurrencesFrom, h _ List.suffix_rfl]
    exact ih fun tail htail ↦ h tail (htail.trans (List.suffix_cons c t))

namespace Incremental

theorem lt_stop (hp : p.Incremental) (h : o ∈ p.occurrencesFrom skip start before t) :
    start + skip < o.stop := by
  induction t generalizing skip start before with
  | nil => cases skip <;> cases h
  | cons c t ih =>
    cases skip with
    | succ skip =>
      have := ih h
      omega
    | zero =>
      rw [occurrencesFrom] at h
      split at h
      · next v rest hfound =>
        have hshort := hp.shortens hfound
        rw [List.length_cons] at hshort
        rcases List.mem_cons.mp h with rfl | h
        · simp only [Occurrence.stop]
          omega
        · have := ih h
          omega
      · have := ih h
        omega

theorem pairwise_stop (hp : p.Incremental) (skip start : Nat) (before : Option CodePoint)
    (t : Text) :
    (p.occurrencesFrom skip start before t).Pairwise fun o o' ↦ o.stop < o'.stop := by
  induction t generalizing skip start before with
  | nil => cases skip <;> exact List.Pairwise.nil
  | cons c t ih =>
    cases skip with
    | succ skip => exact ih skip (start + 1) (some c)
    | zero =>
      rw [occurrencesFrom]
      split
      · next v rest hfound =>
        refine List.pairwise_cons.mpr ⟨fun o ho ↦ ?_, ih _ _ _⟩
        have hlt := hp.lt_stop ho
        simp only [Occurrence.stop] at hlt ⊢
        omega
      · exact ih _ _ _

theorem occurrencesFrom_append (hp : p.Incremental) (skip start : Nat)
    (before : Option CodePoint) (t more : Text) :
    p.occurrencesFrom skip start before t =
      (p.occurrencesFrom skip start before (t ++ more)).filter (·.stop ≤ start + t.length) := by
  induction t generalizing skip start before with
  | nil =>
    have hall : ∀ o ∈ p.occurrencesFrom skip start before more,
        ¬ decide (o.stop ≤ start + ([] : Text).length) = true := by
      intro o ho
      have := hp.lt_stop ho
      simp only [List.length_nil, decide_eq_true_eq]
      omega
    rw [List.nil_append, List.filter_eq_nil_iff.mpr hall]
    cases skip <;> rfl
  | cons c t ih =>
    have hlength : start + (c :: t).length = start + 1 + t.length := by
      rw [List.length_cons]
      omega
    rw [hlength]
    cases skip with
    | succ skip => exact ih skip (start + 1) (some c)
    | zero =>
      rw [List.cons_append, occurrencesFrom, occurrencesFrom]
      cases hfound : p before (c :: t) with
      | some found =>
        obtain ⟨v, rest⟩ := found
        have hextended := hp.extend more hfound
        rw [List.cons_append] at hextended
        have hsame : (t ++ more).length + 1 - (rest ++ more).length =
            t.length + 1 - rest.length := by
          rw [List.length_append, List.length_append]
          omega
        have hstop : (⟨start, t.length + 1 - rest.length, v⟩ : Occurrence α).stop ≤
            start + 1 + t.length := by
          simp only [Occurrence.stop]
          omega
        rw [hextended]
        dsimp only
        rw [hsame, List.filter_cons, if_pos (decide_eq_true hstop), ← ih]
      | none =>
        cases hlater : p before (c :: (t ++ more)) with
        | none => exact ih 0 (start + 1) (some c)
        | some found =>
          -- What is recognised ends past the text, and nothing is recognised before its end.
          obtain ⟨v, rest⟩ := found
          obtain ⟨hends, hnone⟩ := hp.hides hfound hlater
          have hall : ∀ o ∈ (⟨start, (t ++ more).length + 1 - rest.length, v⟩ : Occurrence α) ::
              p.occurrencesFrom ((t ++ more).length + 1 - rest.length - 1) (start + 1) (some c)
                (t ++ more), ¬ decide (o.stop ≤ start + 1 + t.length) = true := by
            rw [List.length_append]
            intro o ho
            rw [decide_eq_true_eq]
            rcases List.mem_cons.mp ho with rfl | ho
            · simp only [Occurrence.stop]
              omega
            · have := hp.lt_stop ho
              omega
          dsimp only
          rw [List.filter_eq_nil_iff.mpr hall]
          exact occurrencesFrom_of_none fun tail htail ↦
            hnone tail (htail.trans (List.suffix_cons c t))

/-- **The occurrences in the front of a text are those of the text that end within it.** -/
theorem occurrences_append (hp : p.Incremental) (t more : Text) :
    p.occurrences t = (p.occurrences (t ++ more)).filter (·.stop ≤ t.length) := by
  have h := hp.occurrencesFrom_append 0 0 none t more
  rwa [Nat.zero_add] at h

theorem filter_stop_isPrefix {os : List (Occurrence α)}
    (h : os.Pairwise fun o o' ↦ o.stop < o'.stop) (n : Nat) : os.filter (·.stop ≤ n) <+: os := by
  induction os with
  | nil => exact List.prefix_rfl
  | cons o rest ih =>
    obtain ⟨ho, hrest⟩ := List.pairwise_cons.mp h
    by_cases hstop : o.stop ≤ n
    · rw [List.filter_cons, if_pos (decide_eq_true hstop)]
      exact (List.prefix_cons_inj o).mpr (ih hrest)
    · have hall : ∀ o' ∈ o :: rest, ¬ decide (o'.stop ≤ n) = true := by
        refine List.forall_mem_cons.mpr ⟨by simpa using hstop, fun o' ho' ↦ ?_⟩
        have := ho o' ho'
        rw [decide_eq_true_eq]
        omega
      rw [List.filter_eq_nil_iff.mpr hall]
      exact List.nil_prefix

/-- **More text leaves the occurrences that there are, and adds others after them.** -/
theorem occurrences_isPrefix (hp : p.Incremental) (t more : Text) :
    p.occurrences t <+: p.occurrences (t ++ more) := by
  rw [hp.occurrences_append t more]
  exact filter_stop_isPrefix (hp.pairwise_stop 0 0 none _) t.length

end Incremental

end Pattern

end RouteCatalog
