import RouteCatalog.Proofs.DocComment.Fallback
import RouteCatalog.Proofs.DocComment.Tag
import RouteCatalog.Proofs.Files.Path

/-!
# The shape of what a comment says

A description is one line that neither starts nor ends with a blank, the name of a parameter is a
name, and a status has three digits at most (`DocComment.wellFormed_lenient`). These hold of every
comment, since the annotations that a comment misspells are left out.
-/

namespace RouteCatalog

namespace Text

variable {t : Text} {c : CodePoint}

/-! ## Trimmed texts -/

/-- No blank stands at either end. -/
structure Trimmed (t : Text) : Prop where
  head : ∀ c, t.head? = some c → c.isBlank = false
  last : ∀ c, t.getLast? = some c → c.isBlank = false

theorem trimRight_isPrefix (t : Text) : t.trimRight <+: t := by
  induction t with
  | nil => exact List.prefix_rfl
  | cons c t ih =>
    rw [trimRight]
    split
    · split
      · exact List.nil_prefix
      · exact (List.prefix_cons_inj c).mpr List.nil_prefix
    · exact (List.prefix_cons_inj c).mpr ih

theorem isBlank_of_getLast?_trimRight (h : t.trimRight.getLast? = some c) : c.isBlank = false := by
  induction t with
  | nil => cases h
  | cons first t ih =>
    rw [trimRight] at h
    split at h
    · split at h
      · cases h
      · next hfirst =>
        cases h
        exact Bool.eq_false_iff.mpr hfirst
    · next hne =>
      cases htail : trimRight t with
      | nil => exact absurd htail hne
      | cons next rest =>
        rw [htail, List.getLast?_cons_cons, ← htail] at h
        exact ih h

theorem trimmed_trim (t : Text) : t.trim.Trimmed where
  head c h := by
    obtain ⟨after, hafter⟩ := trimRight_isPrefix t.trimLeft
    have hhead : t.trimLeft.head? = some c := by
      rw [← hafter, List.head?_append, ← trim, h]
      rfl
    have hnot := List.head?_dropWhile_not CodePoint.isBlank t
    rw [← trimLeft, hhead] at hnot
    exact hnot
  last c h := isBlank_of_getLast?_trimRight h

theorem not_mem_join {separator : Text} {pieces : List Text} (hseparator : c ∉ separator)
    (h : ∀ piece ∈ pieces, c ∉ piece) : c ∉ join separator pieces := by
  induction pieces with
  | nil => exact List.not_mem_nil
  | cons piece rest ih =>
    obtain ⟨hpiece, hrest⟩ := List.forall_mem_cons.mp h
    cases rest with
    | nil => rwa [join_singleton]
    | cons next rest =>
      rw [join_cons_cons, List.mem_append, List.mem_append]
      exact not_or.mpr ⟨not_or.mpr ⟨hpiece, hseparator⟩, ih hrest⟩

end Text

/-- What the documentation says has the shape that its readers rely on. -/
structure Documentation.WellFormed (d : Documentation) : Prop where
  /-- The description is one line that is not empty and has no blanks at its ends. -/
  description : ∀ t, d.description = some t → t ≠ [] ∧ CodePoint.ofChar '\n' ∉ t ∧ t.Trimmed
  /-- The names of parameters are made of word characters, dollar signs and points. -/
  parameters : ∀ p ∈ d.parameters, p.name ≠ [] ∧ ∀ c ∈ p.name, DocComment.isNameChar c = true
  status : ∀ r, d.response = some r → 0 ≤ r.status ∧ r.status ≤ 999

namespace DocComment

variable {t rest block : Text}

/-! ## Parts of a comment -/

theorem description_eq_some (h : description block = some t) :
    t ≠ [] ∧ CodePoint.ofChar '\n' ∉ t ∧ t.Trimmed := by
  have hpieces : ∀ piece ∈ descriptionLines block, CodePoint.ofChar '\n' ∉ piece := by
    intro piece hpiece
    obtain ⟨line, hline, rfl⟩ := List.mem_map.mp (List.mem_of_mem_filter hpiece)
    exact fun hmem ↦ Text.not_mem_of_mem_splitOn hline
      (undecorated_subset line (Text.trim_subset _ hmem))
  have hjoined : CodePoint.ofChar '\n' ∉ (Text.join " " (descriptionLines block)).trim :=
    fun hmem ↦ Text.not_mem_join (by decide) hpieces (Text.trim_subset _ hmem)
  rw [description] at h
  split at h
  · cases h
  · next hne =>
    cases h
    exact ⟨hne, hjoined, Text.trimmed_trim _⟩

theorem name_of_parameterTag {before : Option CodePoint} {type name : Text}
    (h : parameterTag before t = some ((type, name), rest)) :
    ∀ c ∈ name, isNameChar c = true := by
  simp only [parameterTag, Option.bind_eq_bind, Option.bind_eq_some_iff] at h
  obtain ⟨named, -, opened, -, typed, -, h⟩ := h
  split at h
  · cases h
  · simp only [Option.bind_eq_some_iff, Option.pure_def, Option.some.injEq, Prod.mk.injEq] at h
    obtain ⟨closed, -, started, -, ⟨-, rfl⟩, -⟩ := h
    exact fun c hc ↦ List.mem_takeWhile_imp hc

theorem name_of_mem_parameters {p : Parameter} (h : p ∈ parameters block) :
    p.name ≠ [] ∧ ∀ c ∈ p.name, isNameChar c = true := by
  obtain ⟨⟨start, length, type, name⟩, ho, hparameter⟩ := List.mem_filterMap.mp h
  obtain ⟨-, before, after, hfound⟩ := Pattern.exists_of_mem_occurrences ho
  rw [parameter?] at hparameter
  split at hparameter
  · cases hparameter
  · next hne =>
    cases hparameter
    exact ⟨mt List.isEmpty_iff.mpr hne, name_of_parameterTag hfound⟩

theorem status_of_lenientResponse {r : Response} (h : lenientResponse block = some r) :
    0 ≤ r.status ∧ r.status ≤ 999 := by
  obtain ⟨⟨⟨status, body⟩, after⟩, hfirst, rfl⟩ := Option.map_eq_some_iff.mp h
  obtain ⟨tail, -, before, hfound⟩ := Pattern.exists_of_first? hfirst
  have hlt := (responseTag_subset hfound).1
  dsimp only
  omega

/-- **What a comment says leniently is well formed.** -/
theorem wellFormed_lenient (block : Text) : (lenient block).WellFormed where
  description _ h := description_eq_some h
  parameters _ h := name_of_mem_parameters h
  status _ h := status_of_lenientResponse h

end DocComment

end RouteCatalog
