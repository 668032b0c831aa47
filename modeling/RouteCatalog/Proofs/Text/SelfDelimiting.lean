import Mathlib.Data.List.TakeWhile
import RouteCatalog.Proofs.Text.Surrogate
import RouteCatalog.Proofs.Text.Truncated

/-!
# What ends itself

A function that recognises a value at the front of a text is self-delimiting when the recognised
characters settle it, whatever follows them (`SelfDelimiting`). One such function after the other is
self-delimiting (`SelfDelimiting.bind`), and so are blanks before one. What ends within the front of
a text is recognised in the front alone (`SelfDelimiting.of_append`).
-/

namespace RouteCatalog

variable {α β : Type} {f : Text → Option (α × Text)} {g : α → Text → Option (β × Text)}
  {t x y rest more : Text} {v : α}

/-- What is recognised at the front of a text does not depend on what follows it. -/
structure SelfDelimiting (f : Text → Option (α × Text)) : Prop where
  nil : f [] = none
  /-- What is left is an end of the text. -/
  leavesEnd : ∀ {t v rest}, f t = some (v, rest) → rest <:+ t
  /-- What is left may be anything else. -/
  swap : ∀ {x y v}, f (x ++ y) = some (v, y) → ∀ z, f (x ++ z) = some (v, z)

/-- A function that only says what follows, as one that recognises a value. -/
def dropping (drop : Text → Option Text) (t : Text) : Option (Unit × Text) := do
  let rest ← drop t
  return ((), rest)

theorem dropping_eq_some {drop : Text → Option Text} {v : Unit} :
    dropping drop t = some (v, rest) ↔ drop t = some rest := by
  constructor
  · intro h
    obtain ⟨_, hdrop, heq⟩ := Option.bind_eq_some_iff.mp h
    cases heq
    exact hdrop
  · intro h
    rw [dropping, h]
    rfl

namespace SelfDelimiting

theorem exists_cons_append (hf : SelfDelimiting f) (h : f t = some (v, rest)) :
    ∃ c x, t = c :: x ++ rest ∧ ∀ z, f (c :: x ++ z) = some (v, z) := by
  obtain ⟨x, rfl⟩ := hf.leavesEnd h
  cases x with
  | nil =>
    have hnil := hf.swap (x := []) h []
    rw [List.nil_append, hf.nil] at hnil
    cases hnil
  | cons c x => exact ⟨c, x, rfl, hf.swap h⟩

theorem length_lt (hf : SelfDelimiting f) (h : f t = some (v, rest)) : rest.length < t.length := by
  obtain ⟨c, x, rfl, -⟩ := hf.exists_cons_append h
  simp only [List.length_append, List.length_cons]
  omega

theorem append (hf : SelfDelimiting f) (h : f t = some (v, rest)) (more : Text) :
    f (t ++ more) = some (v, rest ++ more) := by
  obtain ⟨x, rfl⟩ := hf.leavesEnd h
  rw [List.append_assoc]
  exact hf.swap h _

/-- What ends within the front of a text is recognised in the front alone. -/
theorem of_append (hf : SelfDelimiting f) (h : f (t ++ more) = some (v, rest))
    (hends : more.length ≤ rest.length) :
    ∃ rest', rest = rest' ++ more ∧ f t = some (v, rest') := by
  obtain ⟨x, hx⟩ := hf.leavesEnd h
  obtain ⟨rest', rfl⟩ : more <:+ rest :=
    List.suffix_of_suffix_length_le (List.suffix_append t more) ⟨x, hx⟩ hends
  rw [← List.append_assoc] at hx
  obtain rfl := List.append_cancel_right hx
  rw [List.append_assoc] at h
  exact ⟨rest', rfl, hf.swap h rest'⟩

theorem bind (hf : SelfDelimiting f) (hg : ∀ a, SelfDelimiting (g a)) :
    SelfDelimiting fun t ↦ (f t).bind fun (a, rest) ↦ g a rest where
  nil := by rw [hf.nil, Option.bind_none]
  leavesEnd h := by
    obtain ⟨⟨a, middle⟩, hfirst, hsecond⟩ := Option.bind_eq_some_iff.mp h
    exact ((hg a).leavesEnd hsecond).trans (hf.leavesEnd hfirst)
  swap {x y v} h z := by
    obtain ⟨⟨a, middle⟩, hfirst, hsecond⟩ := Option.bind_eq_some_iff.mp h
    obtain ⟨x₁, hx⟩ := hf.leavesEnd hfirst
    obtain ⟨x₂, rfl⟩ := (hg a).leavesEnd hsecond
    rw [← List.append_assoc] at hx
    obtain rfl := List.append_cancel_right hx
    rw [List.append_assoc] at hfirst ⊢
    rw [hf.swap hfirst, Option.bind_some]
    exact (hg a).swap hsecond z

theorem map (hf : SelfDelimiting f) (h : α → β) :
    SelfDelimiting fun t ↦ (f t).bind fun (v, rest) ↦ some (h v, rest) where
  nil := by rw [hf.nil, Option.bind_none]
  leavesEnd hmap := by
    obtain ⟨⟨v, rest⟩, hfound, heq⟩ := Option.bind_eq_some_iff.mp hmap
    cases heq
    exact hf.leavesEnd hfound
  swap {x y v} hmap z := by
    obtain ⟨⟨v, rest⟩, hfound, heq⟩ := Option.bind_eq_some_iff.mp hmap
    cases heq
    rw [hf.swap hfound, Option.bind_some]

/-- A function after one that only says what follows. -/
theorem after {drop : Text → Option Text} (hdrop : SelfDelimiting (dropping drop))
    (hf : SelfDelimiting f) : SelfDelimiting fun t ↦ (drop t).bind f := by
  have heq : (fun t ↦ (drop t).bind f) =
      fun t ↦ (dropping drop t).bind fun (_, rest) ↦ f rest :=
    funext fun t ↦ by cases hdrop : drop t <;> simp [dropping, hdrop]
  rw [heq]
  exact hdrop.bind fun _ ↦ hf

theorem bind_dropping {drop drop' : Text → Option Text} (hdrop : SelfDelimiting (dropping drop))
    (hdrop' : SelfDelimiting (dropping drop')) :
    SelfDelimiting (dropping fun t ↦ (drop t).bind drop') := by
  have heq : dropping (fun t ↦ (drop t).bind drop') = fun t ↦ (drop t).bind (dropping drop') :=
    funext fun t ↦ Option.bind_assoc ..
  rw [heq]
  exact hdrop.after hdrop'

/-- What is recognised, and then a function that only says what follows. -/
theorem before {drop : Text → Option Text} (hf : SelfDelimiting f)
    (hdrop : SelfDelimiting (dropping drop)) :
    SelfDelimiting fun t ↦ (f t).bind fun (v, rest) ↦
      (drop rest).bind fun rest ↦ some (v, rest) := by
  have hkept (v : α) : SelfDelimiting fun t ↦ (drop t).bind fun rest ↦ some (v, rest) := by
    have heq : (fun t ↦ (drop t).bind fun rest ↦ some (v, rest)) =
        fun t ↦ (dropping drop t).bind fun (_, rest) ↦ some (v, rest) :=
      funext fun t ↦ by cases hdrop : drop t <;> simp [dropping, hdrop]
    rw [heq]
    exact hdrop.map fun _ ↦ v
  exact hf.bind hkept

theorem trimLeft (hf : SelfDelimiting f) : SelfDelimiting fun t ↦ f t.trimLeft where
  nil := hf.nil
  leavesEnd h := (hf.leavesEnd h).trans (Text.trimLeft_isSuffix _)
  swap {x y v} h z := by
    obtain ⟨c, inside, htrim, hswap⟩ := hf.exists_cons_append h
    have hsplit := List.takeWhile_append_dropWhile (p := CodePoint.isBlank) (l := x ++ y)
    have hnotBlank : c.isBlank = false := by
      have := List.head?_dropWhile_not CodePoint.isBlank (x ++ y)
      rw [show (x ++ y).dropWhile CodePoint.isBlank = c :: inside ++ y from htrim] at this
      simpa using this
    rw [show (x ++ y).dropWhile CodePoint.isBlank = c :: inside ++ y from htrim,
      ← List.append_assoc] at hsplit
    rw [← List.append_cancel_right hsplit, Text.trimLeft, List.append_assoc,
      List.dropWhile_append_of_pos fun d hd ↦ List.mem_takeWhile_imp hd, List.cons_append,
      List.dropWhile_cons_of_neg (by rw [hnotBlank]; decide)]
    exact hswap z

end SelfDelimiting

end RouteCatalog
