import Mathlib.Data.List.Basic

/-!
# Computations that may fail

A computation that has a result is taken apart from the front, one step at a time: each step that
it goes through has a result (`exists_of_bind_eq_ok`). One that fails does so at its first step, or
that step has a result and the rest fails (`bind_eq_error`).
-/

namespace RouteCatalog

variable {ε α β : Type} {x : Except ε α} {e : ε} {b : β} {as : List α} {bs : List β}

theorem exists_of_bind_eq_ok {f : α → Except ε β} (h : x >>= f = .ok b) :
    ∃ a, x = .ok a ∧ f a = .ok b := by
  cases x with
  | error e => cases h
  | ok a => exact ⟨a, rfl, h⟩

theorem exists_of_map_eq_ok {f : α → β} (h : x.map f = .ok b) : ∃ a, x = .ok a ∧ f a = b := by
  cases x with
  | error e => cases h
  | ok a => exact ⟨a, rfl, Except.ok.inj h⟩

theorem bind_eq_error {f : α → Except ε β} (h : x >>= f = .error e) :
    x = .error e ∨ ∃ a, x = .ok a ∧ f a = .error e := by
  cases x with
  | error e' =>
    cases h
    exact .inl rfl
  | ok a => exact .inr ⟨a, rfl, h⟩

theorem exists_of_mapM_cons_eq_ok {f : α → Except ε β} {a : α} (h : (a :: as).mapM f = .ok bs) :
    ∃ first rest, f a = .ok first ∧ as.mapM f = .ok rest ∧ bs = first :: rest := by
  rw [List.mapM_cons] at h
  obtain ⟨first, hfirst, h⟩ := exists_of_bind_eq_ok h
  obtain ⟨rest, hrest, h⟩ := exists_of_bind_eq_ok h
  cases h
  exact ⟨first, rest, hfirst, hrest, rfl⟩

theorem exists_of_mem_mapM {f : α → Except ε β} (h : as.mapM f = .ok bs) (hb : b ∈ bs) :
    ∃ a ∈ as, f a = .ok b := by
  induction as generalizing bs with
  | nil =>
    cases h
    cases hb
  | cons a as ih =>
    obtain ⟨first, rest, hfirst, hrest, rfl⟩ := exists_of_mapM_cons_eq_ok h
    rcases List.mem_cons.mp hb with rfl | hb
    · exact ⟨a, List.mem_cons_self, hfirst⟩
    · obtain ⟨a', ha', hfound⟩ := ih hrest hb
      exact ⟨a', List.mem_cons_of_mem a ha', hfound⟩

end RouteCatalog
