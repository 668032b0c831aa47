import RouteCatalog.Proofs.Text.Pattern
import RouteCatalog.Proofs.Text.Surrogate
import RouteCatalog.Route.Declaration

/-!
# Where a declaration takes its path from

The path of a declaration is written in the text, character by character. Every step of a pattern
leaves an end of the text that it was given, so what is found later stands in the text too.
-/

namespace RouteCatalog

/-- What follows the value is an end of the text. -/
def Pattern.LeavesEnd {α : Type} (p : Pattern α) : Prop :=
  ∀ ⦃before t v rest⦄, p before t = some (v, rest) → rest <:+ t

theorem Pattern.LeavesEnd.first? {α : Type} {p : Pattern α} (hp : p.LeavesEnd)
    {before : Option CodePoint} {t rest : Text} {v : α} (h : p.first? before t = some (v, rest)) :
    rest <:+ t := by
  obtain ⟨tail, htail, before, hfound⟩ := exists_of_first? h
  exact (hp hfound).trans htail

namespace Declaration

variable {t rest : Text}

/-! ## Pieces -/

theorem dropWord?_isSuffix {word : Text} (h : dropWord? word t = some rest) : rest <:+ t := by
  induction word generalizing t with
  | nil =>
    cases h
    exact List.suffix_rfl
  | cons a word ih =>
    cases t with
    | nil => cases h
    | cons c t =>
      rw [dropWord?] at h
      split at h
      · exact (ih h).trans (List.suffix_cons c t)
      · cases h

theorem dropQuote?_isSuffix (h : dropQuote? t = some rest) : rest <:+ t := by
  cases t with
  | nil => cases h
  | cons c t =>
    rw [dropQuote?] at h
    split at h
    · cases h
      exact List.suffix_cons c rest
    · cases h

theorem dropSpaced?_isSuffix {literal : Text} (h : dropSpaced? literal t = some rest) :
    rest <:+ t := (Text.dropLiteral?_isSuffix h).trans (Text.trimLeft_isSuffix t)

theorem quoted?_eq_some {inside : Text} (h : quoted? t = some (inside, rest)) :
    inside ⊆ t ∧ rest <:+ t := by
  simp only [quoted?, Option.bind_eq_bind, Option.bind_eq_some_iff, Option.pure_def,
    Option.some.injEq, Prod.mk.injEq] at h
  obtain ⟨opened, hopened, rest, hrest, rfl, rfl⟩ := h
  have hsuffix := dropQuote?_isSuffix hopened
  refine ⟨List.Subset.trans (List.takeWhile_sublist _).subset hsuffix.subset, ?_⟩
  exact ((dropQuote?_isSuffix hrest).trans (List.dropWhile_suffix _)).trans hsuffix

theorem quotedNonempty?_eq_some {inside : Text} (h : quotedNonempty? t = some (inside, rest)) :
    inside ⊆ t ∧ rest <:+ t := by
  simp only [quotedNonempty?, Option.bind_eq_bind, Option.bind_eq_some_iff] at h
  obtain ⟨⟨text, after⟩, hquoted, h⟩ := h
  split at h
  · cases h
  · cases h
    exact quoted?_eq_some hquoted

theorem anyWord?_isSuffix {words : List Text} {word : Text}
    (h : anyWord? words t = some (word, rest)) : rest <:+ t := by
  obtain ⟨w, -, hw⟩ := List.exists_of_findSome?_eq_some h
  obtain ⟨after, hafter, heq⟩ := Option.map_eq_some_iff.mp hw
  cases heq
  exact dropWord?_isSuffix hafter

theorem dropFieldName?_isSuffix {name : Text} (h : dropFieldName? name t = some rest) :
    rest <:+ t := by
  obtain ⟨after, hafter, hrest⟩ := Option.bind_eq_some_iff.mp h
  exact (dropSpaced?_isSuffix hrest).trans (dropWord?_isSuffix hafter)

/-! ## Patterns -/

/-- The path is written in the text. -/
def TakesPath (p : Pattern Declaration) : Prop :=
  ∀ ⦃before t d rest⦄, p before t = some (d, rest) → d.path ⊆ t

theorem takesPath_fluentCall : TakesPath fluentCall := by
  intro before t d rest h
  unfold fluentCall at h
  split at h
  · cases h
  · simp only [Option.bind_eq_bind, Option.bind_eq_some_iff, Option.pure_def, Option.some.injEq,
      Prod.exists, Prod.mk.injEq] at h
    obtain ⟨verb, called, hverb, opened, hopened, path, after, hpath, rfl, rfl⟩ := h
    have hsuffix := (Text.trimLeft_isSuffix _).trans
      ((dropSpaced?_isSuffix hopened).trans (anyWord?_isSuffix hverb))
    exact List.Subset.trans (quotedNonempty?_eq_some hpath).1 hsuffix.subset

theorem leavesEnd_registrationOpening : registrationOpening.LeavesEnd := by
  intro before t v rest h
  unfold registrationOpening at h
  split at h
  · cases h
  · simp only [Option.bind_eq_bind, Option.bind_eq_some_iff, Option.pure_def, Option.some.injEq,
      Prod.mk.injEq] at h
    obtain ⟨called, hcalled, opened, hopened, after, hafter, -, rfl⟩ := h
    exact (dropSpaced?_isSuffix hafter).trans
      ((dropSpaced?_isSuffix hopened).trans (dropWord?_isSuffix hcalled))

theorem leavesEnd_methodField : methodField.LeavesEnd := by
  intro before t v rest h
  simp only [methodField, Option.bind_eq_bind, Option.bind_eq_some_iff, Option.pure_def,
    Option.some.injEq, Prod.exists, Prod.mk.injEq] at h
  obtain ⟨named, hnamed, opened, hopened, verb, after, hverb, closed, hclosed, rfl, rfl⟩ := h
  exact ((dropQuote?_isSuffix hclosed).trans (anyWord?_isSuffix hverb)).trans
    (((dropQuote?_isSuffix hopened).trans (Text.trimLeft_isSuffix _)).trans
      (dropFieldName?_isSuffix hnamed))

theorem urlField_eq_some {before : Option CodePoint} {path : Text}
    (h : urlField before t = some (path, rest)) : path ⊆ t := by
  obtain ⟨named, hnamed, hpath⟩ := Option.bind_eq_some_iff.mp h
  have hsuffix := (Text.trimLeft_isSuffix _).trans (dropFieldName?_isSuffix hnamed)
  exact List.Subset.trans (quotedNonempty?_eq_some hpath).1 hsuffix.subset

theorem takesPath_registration : TakesPath registration := by
  intro before t d rest h
  simp only [registration, Option.bind_eq_bind, Option.bind_eq_some_iff, Prod.exists,
    Option.pure_def, Option.some.injEq, Prod.mk.injEq] at h
  obtain ⟨_, opened, hopened, verb, called, hverb, path, after, hpath, _, closed, -, rfl, rfl⟩ := h
  obtain ⟨tail, htail, before, hfield⟩ := Pattern.exists_of_first? hpath
  have hsuffix := htail.trans ((leavesEnd_methodField.first? hverb).trans
    (leavesEnd_registrationOpening hopened))
  exact List.Subset.trans (urlField_eq_some hfield) hsuffix.subset

theorem takesPath_decorator : TakesPath decorator := by
  intro before t d rest h
  simp only [decorator, Option.bind_eq_bind, Option.bind_eq_some_iff, Prod.exists,
    Option.pure_def, Option.some.injEq, Prod.mk.injEq] at h
  obtain ⟨opened, hopened, verb, called, hverb, started, hstarted, after, hafter, rfl, rfl⟩ := h
  obtain ⟨name, -, hname⟩ := List.exists_of_findSome?_eq_some hverb
  obtain ⟨tail, htail, heq⟩ := Option.map_eq_some_iff.mp hname
  cases heq
  have hsuffix := (Text.trimLeft_isSuffix _).trans ((dropSpaced?_isSuffix hstarted).trans
    ((Text.dropLiteral?_isSuffix htail).trans (Text.dropLiteral?_isSuffix hopened)))
  -- Without a quoted argument the path is empty.
  rw [argument]
  cases hquoted : quoted? started.trimLeft with
  | none => exact List.nil_subset t
  | some found => exact List.Subset.trans (quoted?_eq_some hquoted).1 hsuffix.subset

end Declaration

end RouteCatalog
