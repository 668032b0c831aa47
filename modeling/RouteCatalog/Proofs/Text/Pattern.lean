import Mathlib.Data.List.Basic
import RouteCatalog.Text.Pattern

/-!
# Where patterns are recognised

An occurrence is a place of the text at which the pattern recognises the value, and so is the first
one. Whatever holds of the values that a pattern recognises at the front of any part of a text holds
of all its occurrences.

A text that is put together from parts is searched part by part: a part in which the pattern
declines everywhere is passed over, and after an occurrence the search goes on with what follows it.
-/

namespace RouteCatalog.Pattern

variable {α : Type} {p : Pattern α}

theorem exists_drop_of_mem_occurrencesFrom {o : Occurrence α} {t : Text} {skip start : Nat}
    {before : Option CodePoint} (h : o ∈ p.occurrencesFrom skip start before t) :
    ∃ k < t.length, o.start = start + k ∧
      ∃ before rest, p before (t.drop k) = some (o.value, rest) := by
  induction t generalizing skip start before with
  | nil => cases skip <;> cases h
  | cons c t ih =>
    have hlater {skip : Nat} {before : Option CodePoint}
        (h : o ∈ p.occurrencesFrom skip (start + 1) before t) :
        ∃ k < (c :: t).length, o.start = start + k ∧
          ∃ before rest, p before ((c :: t).drop k) = some (o.value, rest) := by
      obtain ⟨k, hk, hstart, hfound⟩ := ih h
      exact ⟨k + 1, Nat.succ_lt_succ hk, by omega, hfound⟩
    cases skip with
    | succ skip => exact hlater h
    | zero =>
      rw [occurrencesFrom] at h
      split at h
      · next value rest hfound =>
        rcases List.mem_cons.mp h with rfl | h
        · exact ⟨0, Nat.succ_pos _, rfl, before, rest, hfound⟩
        · exact hlater h
      · exact hlater h

theorem exists_of_mem_occurrences {o : Occurrence α} {t : Text} (h : o ∈ p.occurrences t) :
    o.start < t.length ∧ ∃ before rest, p before (t.drop o.start) = some (o.value, rest) := by
  obtain ⟨k, hk, hstart, hfound⟩ := exists_drop_of_mem_occurrencesFrom h
  rw [Nat.zero_add] at hstart
  rw [hstart]
  exact ⟨hk, hfound⟩

theorem le_start {o : Occurrence α} {t : Text} {skip start : Nat} {before : Option CodePoint}
    (h : o ∈ p.occurrencesFrom skip start before t) : start ≤ o.start := by
  obtain ⟨k, -, hstart, -⟩ := exists_drop_of_mem_occurrencesFrom h
  omega

theorem pairwise_start (skip start : Nat) (before : Option CodePoint) (t : Text) :
    (p.occurrencesFrom skip start before t).Pairwise fun o o' ↦ o.start < o'.start := by
  induction t generalizing skip start before with
  | nil => cases skip <;> exact List.Pairwise.nil
  | cons c t ih =>
    cases skip with
    | succ skip => exact ih skip (start + 1) (some c)
    | zero =>
      rw [occurrencesFrom]
      split
      · exact List.pairwise_cons.mpr ⟨fun o ho ↦ le_start ho, ih _ _ _⟩
      · exact ih _ _ _

theorem exists_of_first? {v : α} {t rest : Text} {before : Option CodePoint}
    (h : p.first? before t = some (v, rest)) :
    ∃ tail, tail <:+ t ∧ ∃ before, p before tail = some (v, rest) := by
  induction t generalizing before with
  | nil => cases h
  | cons c t ih =>
    rw [first?] at h
    split at h
    · next hfound =>
      cases h
      exact ⟨c :: t, List.suffix_rfl, before, hfound⟩
    · obtain ⟨tail, htail, hfound⟩ := ih h
      exact ⟨tail, htail.trans (List.suffix_cons c t), hfound⟩

/-! ## Searching part by part -/

/-- Nothing is recognised that starts in the first text, when the second follows. -/
def Declines (p : Pattern α) : (x y : Text) → Prop
  | [], _ => True
  | c :: x, y => (∀ before, p before (c :: x ++ y) = none) ∧ p.Declines x y

theorem declines_append {x x' y : Text} :
    p.Declines (x ++ x') y ↔ p.Declines x (x' ++ y) ∧ p.Declines x' y := by
  induction x with
  | nil => simp [Declines]
  | cons c x ih =>
    rw [List.cons_append, Declines, Declines, ih, and_assoc, List.cons_append, List.append_assoc,
      List.cons_append]

theorem getLast?_cons_or (c : CodePoint) (x : Text) (before : Option CodePoint) :
    (c :: x).getLast?.or before = x.getLast?.or (some c) := by
  rw [List.getLast?_cons, Option.some_or]
  cases x.getLast? <;> rfl

theorem first?_of_declines {x y : Text} (h : p.Declines x y) (before : Option CodePoint) :
    p.first? before (x ++ y) = p.first? (x.getLast?.or before) y := by
  induction x generalizing before with
  | nil => rfl
  | cons c x ih =>
    rw [getLast?_cons_or, ← ih h.2, List.cons_append, first?, ← List.cons_append, h.1]

theorem first?_of_found {x y rest : Text} {v : α} (hx : p.Declines x y) (hne : y ≠ [])
    (hy : ∀ before, p before y = some (v, rest)) (before : Option CodePoint) :
    p.first? before (x ++ y) = some (v, rest) := by
  obtain ⟨c, t, rfl⟩ := List.exists_cons_of_ne_nil hne
  rw [first?_of_declines hx, first?, hy]

/-- A pattern that does not look at the character before finds the same whatever that is. -/
theorem first?_congr (hp : ∀ before before' t, p before t = p before' t)
    (before before' : Option CodePoint) (t : Text) : p.first? before t = p.first? before' t := by
  cases t with
  | nil => rfl
  | cons c t => rw [first?, first?, hp before before']

theorem occurrencesFrom_of_declines {x y : Text} (h : p.Declines x y) (start : Nat)
    (before : Option CodePoint) :
    p.occurrencesFrom 0 start before (x ++ y) =
      p.occurrencesFrom 0 (start + x.length) (x.getLast?.or before) y := by
  induction x generalizing start before with
  | nil => rfl
  | cons c x ih =>
    rw [getLast?_cons_or, List.length_cons, Nat.add_comm x.length 1, ← Nat.add_assoc, ← ih h.2,
      List.cons_append, occurrencesFrom, ← List.cons_append, h.1]

theorem occurrencesFrom_skip (x y : Text) (start : Nat) (before : Option CodePoint) :
    p.occurrencesFrom x.length start before (x ++ y) =
      p.occurrencesFrom 0 (start + x.length) (x.getLast?.or before) y := by
  induction x generalizing start before with
  | nil => rfl
  | cons c x ih =>
    rw [getLast?_cons_or, List.length_cons, Nat.add_comm x.length 1, ← Nat.add_assoc, ← ih,
      List.cons_append, Nat.add_comm 1, occurrencesFrom]

theorem occurrencesFrom_of_found {x y : Text} {v : α} {before : Option CodePoint} (hx : x ≠ [])
    (h : p before (x ++ y) = some (v, y)) (start : Nat) :
    p.occurrencesFrom 0 start before (x ++ y) = ⟨start, x.length, v⟩ ::
      p.occurrencesFrom 0 (start + x.length) (x.getLast?.or before) y := by
  obtain ⟨c, x, rfl⟩ := List.exists_cons_of_ne_nil hx
  have hlength : (x ++ y).length + 1 - y.length = x.length + 1 := by
    rw [List.length_append]
    omega
  rw [List.cons_append] at h
  rw [List.cons_append, occurrencesFrom, h]
  dsimp only
  rw [hlength, Nat.add_sub_cancel, occurrencesFrom_skip, getLast?_cons_or, List.length_cons,
    Nat.add_assoc, Nat.add_comm 1]

/-- Where the search starts has no influence on what a pattern recognises that does not look at the
character before. -/
theorem value_occurrencesFrom (hp : ∀ before before' t, p before t = p before' t)
    (skip start : Nat) (before : Option CodePoint) (t : Text) :
    (p.occurrencesFrom skip start before t).map Occurrence.value =
      (p.occurrencesFrom skip 0 none t).map Occurrence.value := by
  induction t generalizing skip start before with
  | nil => cases skip <;> rfl
  | cons c t ih =>
    cases skip with
    | succ skip => rw [occurrencesFrom, occurrencesFrom, ih, ih skip (0 + 1)]
    | zero =>
      rw [occurrencesFrom, occurrencesFrom, hp before none]
      cases p none (c :: t) with
      | none => exact (ih _ _ _).trans (ih _ _ _).symm
      | some found => exact congrArg (found.1 :: ·) ((ih _ _ _).trans (ih _ _ _).symm)

end RouteCatalog.Pattern
