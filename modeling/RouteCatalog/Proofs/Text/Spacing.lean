import Mathlib.Data.List.Basic
import RouteCatalog.Proofs.Text.Pattern
import RouteCatalog.Text.Split

/-!
# Texts that differ in blanks

Two texts may differ only in the blanks at the ends and the starts of their lines. A relation that
says so lets characters other than line feeds be taken off both texts, and the blanks at the front
of both (`Respacing`). Functions that recognise something at the front of a text by literals and
blanks then give related results for related texts (`Keeps`), and so does the search for the first
place where something is recognised (`Respacing.keeps_first?`).
-/

namespace RouteCatalog

/-! ## Functions that keep a relation -/

/-- A function that has a result for some argument has a related one for a related argument. -/
def Keeps {α β : Type} (R : α → α → Prop) (S : β → β → Prop) (f : α → Option β) : Prop :=
  ∀ ⦃a a' b⦄, R a a' → f a = some b → ∃ b', f a' = some b' ∧ S b b'

/-- The same value, with related texts that follow. -/
def Beside {α : Type} (R : Text → Text → Prop) (found found' : α × Text) : Prop :=
  found'.1 = found.1 ∧ R found.2 found'.2

theorem Keeps.bind {α β γ : Type} {R : α → α → Prop} {S : β → β → Prop} {T : γ → γ → Prop}
    {f : α → Option β} {g : β → Option γ} (hf : Keeps R S f) (hg : Keeps S T g) :
    Keeps R T fun a ↦ (f a).bind g := by
  intro a a' c ha h
  obtain ⟨b, hb, hc⟩ := Option.bind_eq_some_iff.mp h
  obtain ⟨b', hb', hbb'⟩ := hf ha hb
  obtain ⟨c', hc', hcc'⟩ := hg hbb' hc
  exact ⟨c', Option.bind_eq_some_iff.mpr ⟨b', hb', hc'⟩, hcc'⟩

/-- Where related arguments go both ways, there is a result for both of them or for none. -/
theorem Keeps.declines {α β : Type} {R R' : α → α → Prop} {S : β → β → Prop} {f : α → Option β}
    {a a' : α} (hf : Keeps R' S f) (hsymm : R a a' → R' a' a) (ha : R a a') (hnone : f a = none) :
    f a' = none := by
  by_contra hsome
  obtain ⟨found, hfound⟩ := Option.ne_none_iff_exists'.mp hsome
  obtain ⟨_, hback, -⟩ := hf (hsymm ha) hfound
  rw [hnone] at hback
  cases hback

section Found

variable {α β : Type} {R : Text → Text → Prop} {S : β → β → Prop}

/-- The value is the same, so what is done with the texts that follow counts. -/
theorem Keeps.beside {g : α → Text → Option β} (h : ∀ a, Keeps R S (g a)) :
    Keeps (Beside R) S fun (a, t) ↦ g a t := by
  rintro ⟨a, t⟩ ⟨_, t'⟩ b ⟨rfl, ht⟩ hb
  exact h _ ht hb

theorem keeps_found (a : α) : Keeps R (Beside R) fun t ↦ some (a, t) := by
  rintro t t' _ ht ⟨⟩
  exact ⟨(a, t'), rfl, rfl, ht⟩

end Found

/-! ## Relations of texts -/

/-- Related texts differ in blanks at line ends only. -/
structure Respacing (R : Text → Text → Prop) : Prop where
  /-- The same character stands at the front of both. -/
  head : ∀ {c t t'}, R (c :: t) t' → ∃ s, t' = c :: s
  /-- If it is not a line feed, it may be taken off. -/
  tail : ∀ {c t s}, c ≠ CodePoint.ofChar '\n' → R (c :: t) (c :: s) → R t s
  /-- The blanks at the front may be taken off. -/
  trim : ∀ {t t'}, R t t' → R t.trimLeft t'.trimLeft

namespace Respacing

variable {α β : Type} {R : Text → Text → Prop} {S : β → β → Prop} (hR : Respacing R)
include hR

theorem append {x t t' : Text} (hx : CodePoint.ofChar '\n' ∉ x) (h : R (x ++ t) t') :
    ∃ s, t' = x ++ s ∧ R t s := by
  induction x generalizing t' with
  | nil => exact ⟨t', rfl, h⟩
  | cons c x ih =>
    obtain ⟨hc, hx⟩ := not_or.mp (mt List.mem_cons.mpr hx)
    obtain ⟨s, rfl⟩ := hR.head h
    obtain ⟨s, rfl, hs⟩ := ih hx (hR.tail (Ne.symm hc) h)
    exact ⟨s, rfl, hs⟩

theorem keeps_dropLiteral? {literal : Text} (h : CodePoint.ofChar '\n' ∉ literal) :
    Keeps R R (Text.dropLiteral? literal) := by
  intro t t' rest ht hrest
  obtain rfl := Text.dropLiteral?_eq_some_iff.mp hrest
  obtain ⟨s, rfl, hs⟩ := hR.append h ht
  exact ⟨s, Text.dropLiteral?_eq_some_iff.mpr rfl, hs⟩

theorem keeps_trimLeft {f : Text → Option β} (hf : Keeps R S f) :
    Keeps R S fun t ↦ f t.trimLeft :=
  fun _ _ _ ht h ↦ hf (hR.trim ht) h

theorem keeps_dropBlanks? : Keeps R R Text.dropBlanks? := by
  intro t t' rest ht hrest
  cases t with
  | nil => cases hrest
  | cons c t =>
    obtain ⟨s, rfl⟩ := hR.head ht
    have htrim := hR.trim ht
    rw [Text.dropBlanks?] at hrest ⊢
    split at hrest
    · next hc =>
      cases hrest
      rw [Text.trimLeft, Text.trimLeft, List.dropWhile_cons_of_pos hc,
        List.dropWhile_cons_of_pos hc] at htrim
      exact ⟨Text.trimLeft s, if_pos hc, htrim⟩
    · cases hrest

/-! ## Searching -/

section First

variable {p : Pattern α} (hany : ∀ before before' t, p before t = p before' t)
  (hblank : ∀ c t, c.isBlank = true → p none (c :: t) = none)

omit hR in
include hany hblank in
/-- A pattern that starts with no blank is looked for after the blanks. -/
theorem first?_trimLeft (t : Text) : p.first? none t = p.first? none t.trimLeft := by
  induction t with
  | nil => rfl
  | cons c t ih =>
    by_cases hc : c.isBlank = true
    · rw [Text.trimLeft, List.dropWhile_cons_of_pos hc, Pattern.first?, hblank c t hc,
        Pattern.first?_congr hany _ none]
      exact ih
    · rw [Text.trimLeft, List.dropWhile_cons_of_neg hc]

include hany hblank in
/-- The first place where something is recognised, if it is recognised in related texts alike. -/
theorem keeps_first? {S : α × Text → α × Text → Prop} (hkeeps : Keeps R S (p none))
    (hnone : ∀ ⦃t t'⦄, R t t' → p none t = none → p none t' = none) :
    Keeps R S (p.first? none) := by
  intro t t' found ht h
  induction hn : t.length using Nat.strongRecOn generalizing t t' with
  | ind n ih =>
    have htrim := hR.trim ht
    rw [first?_trimLeft hany hblank] at h ⊢
    have hshort : t.trimLeft.length ≤ t.length := (List.dropWhile_suffix _).length_le
    cases hfront : t.trimLeft with
    | nil =>
      rw [hfront] at h
      cases h
    | cons c s =>
      have hline : c ≠ CodePoint.ofChar '\n' := by
        rintro rfl
        have hhead := List.head?_dropWhile_not CodePoint.isBlank t
        rw [show t.dropWhile CodePoint.isBlank = CodePoint.ofChar '\n' :: s from hfront] at hhead
        exact absurd hhead (by decide : (CodePoint.ofChar '\n').isBlank ≠ false)
      rw [hfront] at h htrim hshort
      obtain ⟨s', hfront'⟩ := hR.head htrim
      rw [hfront'] at htrim ⊢
      rw [Pattern.first?] at h ⊢
      cases hfound : p none (c :: s) with
      | some first =>
        rw [hfound] at h
        cases h
        obtain ⟨found', hfound', hS⟩ := hkeeps htrim hfound
        exact ⟨found', by rw [hfound'], hS⟩
      | none =>
        rw [hfound, Pattern.first?_congr hany _ none] at h
        rw [hnone htrim hfound, Pattern.first?_congr hany _ none]
        rw [List.length_cons] at hshort
        exact ih s.length (by omega) (hR.tail hline htrim) h rfl

end First

end Respacing

end RouteCatalog
