import RouteCatalog.Proofs.Catalog.Endpoint
import RouteCatalog.Proofs.DocComment.Tag
import RouteCatalog.Proofs.Route.Declaration
import RouteCatalog.Proofs.Text.Utf8
import RouteCatalog.Route.Dialect

/-!
# Endpoints that were extracted

The endpoints that the built-in dialects find in a text without surrogates can be written as JSON
and read again (`storable_of_mem_extract`). Their texts stand in the source or in the dialect, and
their lines are no longer than a line number of a file can be.
-/

namespace RouteCatalog

namespace Dialect

variable {name file content : Text}

theorem lineAt_le (content : Text) (offset : Nat) :
    lineAt content offset ≤ content.count (CodePoint.ofChar '\n') + 1 :=
  Nat.succ_le_succ ((List.take_sublist offset content).count_le _)

theorem lineAt_mono (content : Text) {offset offset' : Nat} (h : offset ≤ offset') :
    lineAt content offset ≤ lineAt content offset' :=
  Nat.succ_le_succ ((List.take_sublist_take_left h).count_le _)

theorem shortHere_of_lt {i : Int} (h : i.natAbs < 1000000000000000000000) :
    (Json.int i).ShortHere := by
  have hlength : (Nat.toDigits 10 i.natAbs).length ≤ 21 :=
    Numeral.length_toDigits_le (by decide) h
  exact hlength.trans (by decide)

/-- The path of an accepted declaration is its own, or the default one when it has none. -/
theorem target?_eq_some {defaultPath path : Text} {d : Declaration} {verb : Verb}
    (h : target? defaultPath d = some (verb, path)) :
    Verb.parse? d.verb = some verb ∧ path ≠ [] ∧
      path = (if d.path.isEmpty then defaultPath else d.path) := by
  simp only [target?, Option.bind_eq_bind, Option.bind_eq_some_iff] at h
  obtain ⟨verb, hverb, h⟩ := h
  obtain ⟨hne, heq⟩ := Option.ite_none_left_eq_some.mp h
  obtain ⟨rfl, rfl⟩ := Prod.mk.inj (Option.some.inj heq)
  exact ⟨hverb, fun hnil ↦ hne (List.isEmpty_iff.mpr hnil), rfl⟩

theorem storable_documentationAt {doc : Documentation} (hcontent : content.SurrogateFree)
    {offset : Nat} (h : documentationAt content offset = .ok doc) : doc.Storable := by
  rw [documentationAt] at h
  split at h
  · cases h
    exact ⟨by simp, by simp, ⟨trivial, trivial, trivial⟩, by simp⟩
  · next block hblock =>
    exact DocComment.storable_documentation
      (DocComment.surrogateFree_lastBefore hcontent hblock) h

variable {pattern : Pattern Declaration} {defaultPath : Text} {e : Endpoint}

theorem storable_of_endpoint? (hname : name.Unsplit) (hdefault : defaultPath.Unsplit)
    (hfile : file.Unsplit) (hcontent : content.SurrogateFree)
    (hlength : content.length < 0x8000000000000000) {o : Occurrence Declaration}
    (ho : o.value.path.Unsplit)
    (h : endpoint? name defaultPath file content o = .ok (some e)) : e.Storable := by
  rw [endpoint?] at h
  split at h
  · cases h
  · next verb path htarget =>
    obtain ⟨doc, hdoc, h⟩ := exists_of_map_eq_ok h
    cases h
    have hstorable := storable_documentationAt hcontent hdoc
    refine ⟨?_, hname, hfile, hstorable.description, hstorable.parameters,
      hstorable.requestBody, fun r hr ↦ ?_, fun n hn ↦ ?_⟩
    · rw [(target?_eq_some htarget).2.2]
      split
      · exact hdefault
      · exact ho
    · obtain ⟨hstatus, hbody⟩ := hstorable.response r hr
      exact ⟨shortHere_of_lt (by omega), hbody⟩
    · cases hn
      have hline := (lineAt_le content o.start).trans
        (Nat.succ_le_succ List.count_le_length)
      exact shortHere_of_lt (by omega)

theorem exists_of_mem_extractWith {endpoints : List Endpoint}
    (h : extractWith name pattern defaultPath file content = .ok endpoints) (he : e ∈ endpoints) :
    ∃ o ∈ pattern.occurrences content,
      endpoint? name defaultPath file content o = .ok (some e) := by
  rw [extractWith] at h
  split at h
  · next found hfound =>
    cases h
    obtain ⟨result, hresult, heq⟩ := List.mem_filterMap.mp he
    obtain ⟨o, ho, hendpoint⟩ := exists_of_mem_mapM hfound hresult
    have hresult : result = some e := heq
    rw [hresult] at hendpoint
    exact ⟨o, ho, hendpoint⟩
  · cases h

theorem storable_of_mem_extractWith (hpattern : Declaration.TakesPath pattern)
    (hname : name.Unsplit) (hdefault : defaultPath.Unsplit) (hfile : file.Unsplit)
    (hcontent : content.SurrogateFree) (hlength : content.length < 0x8000000000000000)
    {endpoints : List Endpoint}
    (h : extractWith name pattern defaultPath file content = .ok endpoints) :
    ∀ e ∈ endpoints, e.Storable := by
  intro e he
  obtain ⟨o, ho, hendpoint⟩ := exists_of_mem_extractWith h he
  obtain ⟨-, before, rest, hpath⟩ := Pattern.exists_of_mem_occurrences ho
  have hsubset := List.Subset.trans (hpattern hpath) (List.drop_sublist _ _).subset
  exact storable_of_endpoint? hname hdefault hfile hcontent hlength
    (hcontent.of_subset hsubset).unsplit hendpoint

theorem names_of_mem_extractWith {endpoints : List Endpoint}
    (h : extractWith name pattern defaultPath file content = .ok endpoints) (he : e ∈ endpoints) :
    e.framework = name ∧ e.sourceFile = file := by
  obtain ⟨o, -, hendpoint⟩ := exists_of_mem_extractWith h he
  rw [endpoint?] at hendpoint
  split at hendpoint
  · cases hendpoint
  · obtain ⟨doc, -, hendpoint⟩ := exists_of_map_eq_ok hendpoint
    cases hendpoint
    exact ⟨rfl, rfl⟩

/-- **What the built-in dialects extract can be written.** -/
theorem storable_of_mem_extract {d : Dialect} (hd : d ∈ builtIn) (hfile : file.Unsplit)
    (hcontent : content.SurrogateFree) (hlength : content.length < 0x8000000000000000)
    {endpoints : List Endpoint} (h : d.extract file content = .ok endpoints) :
    ∀ e ∈ endpoints, e.Storable := by
  simp only [builtIn, List.mem_cons, List.not_mem_nil, or_false] at hd
  rcases hd with rfl | rfl | rfl
  · exact storable_of_mem_extractWith Declaration.takesPath_fluentCall (by decide) (by decide)
      hfile hcontent hlength h
  · exact storable_of_mem_extractWith Declaration.takesPath_registration (by decide) (by decide)
      hfile hcontent hlength h
  · exact storable_of_mem_extractWith Declaration.takesPath_decorator (by decide) (by decide)
      hfile hcontent hlength h

theorem names_of_mem_extract {d : Dialect} (hd : d ∈ builtIn) {endpoints : List Endpoint}
    (h : d.extract file content = .ok endpoints) (he : e ∈ endpoints) :
    e.framework = d.name ∧ e.sourceFile = file := by
  simp only [builtIn, List.mem_cons, List.not_mem_nil, or_false] at hd
  rcases hd with rfl | rfl | rfl
  · exact names_of_mem_extractWith h he
  · exact names_of_mem_extractWith h he
  · exact names_of_mem_extractWith h he

end Dialect

end RouteCatalog
