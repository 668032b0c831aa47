import Mathlib.Data.List.TakeWhile
import RouteCatalog.Proofs.Text.Case
import RouteCatalog.Proofs.Text.Pattern
import RouteCatalog.Route.Dialect

/-!
# No declaration is rejected

The patterns of the built-in dialects recognise supported verbs only, in any spelling, and paths
that are not empty, unless there is a default one. So a declaration that is recognised has a target
(`Dialect.Grammar.exists_target`), and what the built-in dialects leave out they have not
recognised. A path stands between quotation marks, and holds none (`Dialect.Grammar.unquoted`).
-/

namespace RouteCatalog

namespace Declaration

variable {t rest : Text} {words : List Text} {verb : Text}

/-! ## Verbs -/

theorem sameLetters_of_dropWord? {word : Text} (h : dropWord? word t = some rest) :
    Text.SameLetters word (t.take word.length) := by
  induction word generalizing t with
  | nil => exact .nil
  | cons letter word ih =>
    cases t with
    | nil => cases h
    | cons c t =>
      rw [dropWord?] at h
      split at h
      · next hletter => exact .cons hletter (ih h)
      · cases h

theorem exists_of_anyWord? (h : anyWord? words t = some (verb, rest)) :
    ∃ word ∈ words, Text.SameLetters word verb := by
  obtain ⟨word, hword, hfound⟩ := List.exists_of_findSome?_eq_some h
  obtain ⟨after, hafter, heq⟩ := Option.map_eq_some_iff.mp hfound
  cases heq
  exact ⟨word, hword, sameLetters_of_dropWord? hafter⟩

theorem exists_parse?_of_anyWord? (h : anyWord? verbWords t = some (verb, rest)) :
    ∃ v, Verb.parse? verb = some v := by
  obtain ⟨word, hword, hspelled⟩ := exists_of_anyWord? h
  have hletters : ∀ word ∈ verbWords, ∀ letter ∈ word,
      letter.between 0x61 0x7A = true ∧ letter ≠ 'k' ∧ letter ≠ 'i' := by decide
  have hnames : ∀ word ∈ verbWords, ∃ v ∈ Verb.all, v.name = word.upper := by decide
  obtain ⟨v, -, hv⟩ := hnames word hword
  refine ⟨v, ?_⟩
  rw [Verb.parse?, Text.trim_of_sameLetters (fun letter hl ↦ (hletters word hword letter hl).1)
    hspelled, Text.upper_of_sameLetters (hletters word hword) hspelled, ← hv, Verb.ofName?_name]

/-! ## Paths -/

/-- No quotation mark stands in the text. -/
def Unquoted (t : Text) : Prop := ∀ c ∈ t, isQuote c = false

instance (t : Text) : Decidable (Unquoted t) := inferInstanceAs (Decidable (∀ c ∈ t, _))

theorem unquoted_nil : Unquoted [] := by decide

theorem unquoted_of_quoted? {inside : Text} (h : quoted? t = some (inside, rest)) :
    Unquoted inside := by
  simp only [quoted?, Option.bind_eq_bind, Option.bind_eq_some_iff, Option.pure_def,
    Option.some.injEq, Prod.mk.injEq] at h
  obtain ⟨opened, -, after, -, rfl, -⟩ := h
  intro c hc
  have hinside := List.mem_takeWhile_imp hc
  rwa [Bool.not_eq_true'] at hinside

theorem quotedNonempty?_spec {inside : Text} (h : quotedNonempty? t = some (inside, rest)) :
    inside ≠ [] ∧ Unquoted inside := by
  simp only [quotedNonempty?, Option.bind_eq_bind, Option.bind_eq_some_iff] at h
  obtain ⟨⟨text, after⟩, hquoted, h⟩ := h
  split at h
  · cases h
  · next hne =>
    cases h
    exact ⟨mt List.isEmpty_iff.mpr hne, unquoted_of_quoted? hquoted⟩

/-! ## Patterns -/

variable {before : Option CodePoint} {d : Declaration}

theorem fluentCall_eq_some (h : fluentCall before t = some (d, rest)) :
    (∃ v, Verb.parse? d.verb = some v) ∧ d.path ≠ [] ∧ Unquoted d.path := by
  unfold fluentCall at h
  split at h
  · cases h
  · simp only [Option.bind_eq_bind, Option.bind_eq_some_iff, Option.pure_def, Option.some.injEq,
      Prod.exists, Prod.mk.injEq] at h
    obtain ⟨verb, called, hverb, opened, -, path, after, hpath, rfl, -⟩ := h
    exact ⟨exists_parse?_of_anyWord? hverb, quotedNonempty?_spec hpath⟩

theorem methodField_eq_some (h : methodField before t = some (verb, rest)) :
    ∃ v, Verb.parse? verb = some v := by
  simp only [methodField, Option.bind_eq_bind, Option.bind_eq_some_iff, Option.pure_def,
    Option.some.injEq, Prod.exists, Prod.mk.injEq] at h
  obtain ⟨named, -, opened, -, verb, after, hverb, closed, -, rfl, -⟩ := h
  exact exists_parse?_of_anyWord? hverb

theorem urlField_spec {path : Text} (h : urlField before t = some (path, rest)) :
    path ≠ [] ∧ Unquoted path := by
  obtain ⟨named, -, hpath⟩ := Option.bind_eq_some_iff.mp h
  exact quotedNonempty?_spec hpath

theorem registration_eq_some (h : registration before t = some (d, rest)) :
    (∃ v, Verb.parse? d.verb = some v) ∧ d.path ≠ [] ∧ Unquoted d.path := by
  simp only [registration, Option.bind_eq_bind, Option.bind_eq_some_iff, Prod.exists,
    Option.pure_def, Option.some.injEq, Prod.mk.injEq] at h
  obtain ⟨_, opened, -, verb, called, hverb, path, after, hpath, _, closed, -, rfl, -⟩ := h
  obtain ⟨_, -, _, hmethod⟩ := Pattern.exists_of_first? hverb
  obtain ⟨_, -, _, hurl⟩ := Pattern.exists_of_first? hpath
  exact ⟨methodField_eq_some hmethod, urlField_spec hurl⟩

theorem unquoted_argument (t : Text) : Unquoted (argument t).1 := by
  rw [argument]
  cases hquoted : quoted? t with
  | none => exact unquoted_nil
  | some found => exact unquoted_of_quoted? hquoted

theorem decorator_eq_some (h : decorator before t = some (d, rest)) :
    (∃ v, Verb.parse? d.verb = some v) ∧ Unquoted d.path := by
  simp only [decorator, Option.bind_eq_bind, Option.bind_eq_some_iff, Prod.exists,
    Option.pure_def, Option.some.injEq, Prod.mk.injEq] at h
  obtain ⟨opened, -, verb, called, hverb, started, -, after, -, rfl, -⟩ := h
  obtain ⟨name, hname, hfound⟩ := List.exists_of_findSome?_eq_some hverb
  obtain ⟨tail, -, heq⟩ := Option.map_eq_some_iff.mp hfound
  cases heq
  have hnames : ∀ name ∈ decoratorNames, ∃ v ∈ Verb.all, Verb.parse? name = some v := by decide
  obtain ⟨v, -, hv⟩ := hnames verb hname
  exact ⟨⟨v, hv⟩, unquoted_argument _⟩

end Declaration

namespace Dialect

/-- The pattern and the default path of a built-in dialect. -/
inductive Grammar : Dialect → Pattern Declaration → Text → Prop
  | express : Grammar express Declaration.fluentCall []
  | fastify : Grammar fastify Declaration.registration []
  | nestjs : Grammar nestjs Declaration.decorator "/"

theorem exists_grammar {d : Dialect} (h : d ∈ builtIn) :
    ∃ pattern path, Grammar d pattern path := by
  simp only [builtIn, List.mem_cons, List.not_mem_nil, or_false] at h
  rcases h with rfl | rfl | rfl
  · exact ⟨_, _, .express⟩
  · exact ⟨_, _, .fastify⟩
  · exact ⟨_, _, .nestjs⟩

theorem exists_target? {defaultPath : Text} {d : Declaration}
    (hverb : ∃ v, Verb.parse? d.verb = some v) (hpath : d.path ≠ [] ∨ defaultPath ≠ []) :
    ∃ verb path, target? defaultPath d = some (verb, path) := by
  obtain ⟨v, hv⟩ := hverb
  have hne : (if d.path.isEmpty then defaultPath else d.path) ≠ [] := by
    split
    · next hempty => exact hpath.resolve_left (not_not_intro (List.isEmpty_iff.mp hempty))
    · next hown => exact mt List.isEmpty_iff.mpr hown
  refine ⟨v, if d.path.isEmpty then defaultPath else d.path, ?_⟩
  rw [target?, hv]
  exact if_neg (mt List.isEmpty_iff.mp hne)

section Grammar

variable {d : Dialect} {pattern : Pattern Declaration} {defaultPath : Text}
  {before : Option CodePoint} {t rest : Text} {declaration : Declaration}

/-- **A declaration that a built-in dialect recognises has a target.** -/
theorem Grammar.exists_target (hgrammar : Grammar d pattern defaultPath)
    (h : pattern before t = some (declaration, rest)) :
    ∃ verb path, target? defaultPath declaration = some (verb, path) := by
  cases hgrammar with
  | express =>
    obtain ⟨hverb, hpath, -⟩ := Declaration.fluentCall_eq_some h
    exact exists_target? hverb (.inl hpath)
  | fastify =>
    obtain ⟨hverb, hpath, -⟩ := Declaration.registration_eq_some h
    exact exists_target? hverb (.inl hpath)
  | nestjs => exact exists_target? (Declaration.decorator_eq_some h).1 (.inr (by decide))

/-- **The path of a declaration that a built-in dialect recognises holds no quotation mark.** -/
theorem Grammar.unquoted (hgrammar : Grammar d pattern defaultPath)
    (h : pattern before t = some (declaration, rest)) : Declaration.Unquoted declaration.path := by
  cases hgrammar with
  | express => exact (Declaration.fluentCall_eq_some h).2.2
  | fastify => exact (Declaration.registration_eq_some h).2.2
  | nestjs => exact (Declaration.decorator_eq_some h).2

end Grammar

end Dialect

end RouteCatalog
