import Mathlib.Data.List.Forall2
import RouteCatalog.Proofs.DocComment.Fallback
import RouteCatalog.Proofs.Route.Dialect
import RouteCatalog.Proofs.Route.Target

/-!
# What a dialect reports

A built-in dialect reports every declaration that its pattern recognises, one endpoint for each and
in their order, with what the comment before it says leniently (`Dialect.extract_of_shallow`). When
one of these comments nests too deeply, it reports none of them (`Dialect.extract_of_tooDeepAt`).
-/

namespace RouteCatalog.Dialect

variable {name defaultPath file content : Text} {pattern : Pattern Declaration} {d : Dialect}
  {o : Occurrence Declaration} {offset : Nat}

/-! ## Documentation -/

/-- The comment that belongs to an offset nests too deeply. -/
def TooDeepAt (content : Text) (offset : Nat) : Prop :=
  ∃ block, DocComment.lastBefore content offset = some block ∧ DocComment.NestsTooDeeply block

/-- What the comment that belongs to an offset says leniently. -/
def lenientAt (content : Text) (offset : Nat) : Documentation :=
  match DocComment.lastBefore content offset with
  | none => {}
  | some block => DocComment.lenient block

theorem documentationAt_of_not_tooDeepAt (h : ¬ TooDeepAt content offset) :
    documentationAt content offset = .ok (lenientAt content offset) := by
  rw [documentationAt, lenientAt]
  cases hblock : DocComment.lastBefore content offset with
  | none => rfl
  | some block =>
    exact DocComment.documentation_of_not_nestsTooDeeply fun hdeep ↦ h ⟨block, hblock, hdeep⟩

theorem documentationAt_of_tooDeepAt (h : TooDeepAt content offset) :
    ∃ container, documentationAt content offset = .error container := by
  obtain ⟨block, hblock, hdeep⟩ := h
  rw [documentationAt, hblock]
  exact DocComment.documentation_of_nestsTooDeeply hdeep

/-! ## Single declarations -/

/-- An endpoint reports a declaration. -/
structure Reports (name defaultPath file content : Text) (o : Occurrence Declaration)
    (e : Endpoint) : Prop where
  verb : Verb.parse? o.value.verb = some e.verb
  /-- It has the path of the declaration, or the default one. -/
  path : e.path = if o.value.path.isEmpty then defaultPath else o.value.path
  framework : e.framework = name
  sourceFile : e.sourceFile = file
  line : e.line = some (lineAt content o.start : Nat)
  /-- It says what the comment says, leniently. -/
  documentation : (⟨e.description, e.parameters, e.requestBody, e.response⟩ : Documentation) =
    lenientAt content o.start

/-- A declaration with a target is reported, unless its comment nests too deeply. -/
theorem exists_endpoint? (name file : Text)
    (htarget : ∃ verb path, target? defaultPath o.value = some (verb, path))
    (h : ¬ TooDeepAt content o.start) :
    ∃ e, endpoint? name defaultPath file content o = .ok (some e) ∧
      Reports name defaultPath file content o e := by
  obtain ⟨verb, path, htarget⟩ := htarget
  obtain ⟨hverb, -, hpath⟩ := target?_eq_some htarget
  rw [endpoint?, htarget]
  dsimp only
  rw [documentationAt_of_not_tooDeepAt h]
  exact ⟨_, rfl, hverb, hpath, rfl, rfl, rfl, rfl⟩

theorem endpoint?_of_tooDeepAt (name file : Text)
    (htarget : ∃ verb path, target? defaultPath o.value = some (verb, path))
    (h : TooDeepAt content o.start) :
    ∃ container, endpoint? name defaultPath file content o = .error container := by
  obtain ⟨verb, path, htarget⟩ := htarget
  obtain ⟨container, hcontainer⟩ := documentationAt_of_tooDeepAt h
  refine ⟨container, ?_⟩
  rw [endpoint?, htarget]
  dsimp only
  rw [hcontainer]
  rfl

/-! ## All declarations -/

section Lists

variable {α β ε : Type} {as : List α}

theorem exists_mapM_of_forall {f : α → Except ε (Option β)} {R : α → β → Prop}
    (h : ∀ a ∈ as, ∃ b, f a = .ok (some b) ∧ R a b) :
    ∃ found, as.mapM f = .ok found ∧ List.Forall₂ R as (found.filterMap id) := by
  induction as with
  | nil => exact ⟨[], rfl, .nil⟩
  | cons a rest ih =>
    obtain ⟨⟨b, hb, hab⟩, hrest⟩ := List.forall_mem_cons.mp h
    obtain ⟨found, hfound, hall⟩ := ih hrest
    refine ⟨some b :: found, ?_, .cons hab hall⟩
    rw [List.mapM_cons, hb, hfound]
    rfl

theorem exists_mapM_error {f : α → Except ε β} {a : α} (ha : a ∈ as)
    (h : ∃ fault, f a = .error fault) : ∃ fault, as.mapM f = .error fault := by
  induction as with
  | nil => cases ha
  | cons first rest ih =>
    rw [List.mapM_cons]
    cases hfirst : f first with
    | error fault => exact ⟨fault, rfl⟩
    | ok b =>
      have hrest : a ∈ rest := by
        rcases List.mem_cons.mp ha with rfl | hrest
        · obtain ⟨fault, hfault⟩ := h
          rw [hfirst] at hfault
          cases hfault
        · exact hrest
      obtain ⟨fault, hfault⟩ := ih hrest
      rw [hfault]
      exact ⟨fault, rfl⟩

end Lists

section Extract

variable (hgrammar : Grammar d pattern defaultPath)
include hgrammar

theorem Grammar.extract_eq (file content : Text) :
    d.extract file content = extractWith d.name pattern defaultPath file content := by
  cases hgrammar <;> rfl

theorem Grammar.exists_target_of_mem (ho : o ∈ pattern.occurrences content) :
    ∃ verb path, target? defaultPath o.value = some (verb, path) := by
  obtain ⟨-, before, rest, hfound⟩ := Pattern.exists_of_mem_occurrences ho
  exact hgrammar.exists_target hfound

/-- **A built-in dialect reports every declaration**, unless one of their comments nests too
deeply. -/
theorem Grammar.extract_of_shallow (file : Text)
    (h : ∀ o ∈ pattern.occurrences content, ¬ TooDeepAt content o.start) :
    ∃ endpoints, d.extract file content = .ok endpoints ∧
      List.Forall₂ (Reports d.name defaultPath file content) (pattern.occurrences content)
        endpoints := by
  obtain ⟨found, hfound, hall⟩ := exists_mapM_of_forall fun o ho ↦
    exists_endpoint? d.name file (hgrammar.exists_target_of_mem ho) (h o ho)
  refine ⟨found.filterMap id, ?_, hall⟩
  rw [hgrammar.extract_eq, extractWith, hfound]

/-- **One comment that nests too deeply costs all the endpoints of the file.** -/
theorem Grammar.extract_of_tooDeepAt (file : Text) (ho : o ∈ pattern.occurrences content)
    (h : TooDeepAt content o.start) : ∃ failure, d.extract file content = .error failure := by
  obtain ⟨container, hcontainer⟩ := exists_mapM_error ho
    (endpoint?_of_tooDeepAt d.name file (hgrammar.exists_target_of_mem ho) h)
  refine ⟨.tooDeep container, ?_⟩
  rw [hgrammar.extract_eq, extractWith, hcontainer]

end Extract

end RouteCatalog.Dialect
