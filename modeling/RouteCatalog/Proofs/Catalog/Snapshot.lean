import RouteCatalog.Proofs.Catalog.Reconcile
import RouteCatalog.Proofs.Catalog.Replace
import RouteCatalog.Proofs.Json.Plain
import RouteCatalog.Proofs.Json.Reader
import RouteCatalog.Proofs.Json.RoundTrip
import RouteCatalog.Proofs.Text.Utf8

/-!
# Snapshots that were persisted

What is read where a catalog was persisted is the catalog (`read_persist`). On the way there the
text is encoded, written beside the file that is there, put in its place, decoded and read.

Persisting with and without the count of what did not change are two runs that should differ in the
count only. They do, with two exceptions, and both end the run that counts
(`persist_incremental_iff`): an earlier snapshot that nests too deeply, and an endpoint that nests
too deeply for a line, where there is an earlier snapshot to compare it with. The values of an
earlier snapshot are no such exception, because what was read can be written
(`exists_mapM_entry_of_read`).
-/

namespace RouteCatalog

theorem Catalog.depth_toJson_le {n : Nat} {c : Catalog}
    (h : ∀ e ∈ c.endpoints, e.NestedWithin n) : c.toJson.depth ≤ n + 5 := by
  refine Nat.succ_le_succ (Json.depthMembers_le_iff.mpr fun m hm ↦ ?_)
  simp only [List.mem_cons, List.not_mem_nil, or_false] at hm
  rcases hm with rfl | rfl | rfl | rfl
  · exact Nat.zero_le _
  · exact Nat.zero_le _
  · refine Nat.succ_le_succ (Json.depthItems_le_iff.mpr fun v hv ↦ ?_)
    obtain ⟨e, he, rfl⟩ := List.mem_map.mp hv
    exact Endpoint.depth_toJson_le (h e he)
  · refine Nat.succ_le_succ (Json.depthItems_le_iff.mpr fun v hv ↦ ?_)
    obtain ⟨warning, -, rfl⟩ := List.mem_map.mp hv
    exact Nat.zero_le _

theorem Catalog.write_eq_ok_iff {c : Catalog} {t : Text} :
    c.write = .ok t ↔
      (c.toJson.Short ∧ c.toJson.depth ≤ Json.Writing.layout.maxDepth) ∧ c.text = t :=
  Json.write_eq_ok_iff

namespace Snapshot

variable {s s' made : Store} {c : Catalog} {root outputFile tag : Text} {incremental : Bool}
  {p : Path} {w : Written}

/-! ## Persisting step by step -/

theorem persist_of_fault {fault : Files.Fault}
    (h : s.ensureDirectory (pathFor root outputFile).parent = (made, some fault)) :
    persist s c root outputFile incremental tag = (made, .error (.unwritable fault)) := by
  rw [persist, h]

theorem persist_of_made
    (h : s.ensureDirectory (pathFor root outputFile).parent = (made, none)) :
    persist s c root outputFile incremental tag =
      match if incremental then countUnchanged made (pathFor root outputFile) c.endpoints
        else .ok 0 with
      | .error fault => (made, .error fault)
      | .ok unchanged =>
        match c.write with
        | .error why => (made, .error (.value why))
        | .ok text =>
          match replaceWhole made (pathFor root outputFile) tag (Utf8.encode text) with
          | (s, some fault) => (s, .error (.unwritable fault))
          | (s, none) => (s, .ok ⟨pathFor root outputFile, c.endpoints.length, unchanged⟩) := by
  revert h
  unfold persist
  dsimp only
  generalize s.ensureDirectory (pathFor root outputFile).parent = result
  rintro rfl
  rfl

/-- A run that succeeds has made the directory, counted, made the text, and replaced the file. -/
theorem persist_eq_ok (h : persist s c root outputFile incremental tag = (s', .ok w)) :
    ∃ made, s.ensureDirectory (pathFor root outputFile).parent = (made, none) ∧
      c.write = .ok c.text ∧
      replaceWhole made (pathFor root outputFile) tag (Utf8.encode c.text) = (s', none) ∧
      w.outputPath = pathFor root outputFile ∧ w.written = c.endpoints.length ∧
      (if incremental then countUnchanged made (pathFor root outputFile) c.endpoints else .ok 0) =
        .ok w.unchanged := by
  cases hmade : s.ensureDirectory (pathFor root outputFile).parent with
  | mk made fault =>
    cases fault with
    | some fault =>
      rw [persist_of_fault hmade] at h
      cases h
    | none =>
      rw [persist_of_made hmade] at h
      split at h
      · cases h
      · next unchanged hcount =>
        split at h
        · cases h
        · next text hwrite =>
          obtain ⟨-, rfl⟩ := Catalog.write_eq_ok_iff.mp hwrite
          split at h
          · cases h
          · next replaced hreplace =>
            cases h
            exact ⟨made, rfl, hwrite, hreplace, rfl, rfl, hcount⟩

/-! ## Reading back -/

theorem read_of_replaceWhole {content : Bytes}
    (h : replaceWhole s p tag content = (s', none)) : s'.read p = .ok content := by
  obtain ⟨source, destination, hready, hreplaced⟩ := replaced_of_replaceWhole h
  exact Store.read_eq_ok_iff.mpr
    ⟨destination, (hreplaced.locate_iff hready.replaced).mpr hready.leads, hreplaced.stored⟩

theorem read_text (hstorable : c.toJson.Storable)
    (hnested : ∀ e ∈ c.endpoints, e.NestedWithin 200) : Json.read c.text = .ok c.toJson := by
  have hdepth : c.toJson.depth ≤ Json.maxDepth :=
    (Catalog.depth_toJson_le hnested).trans (by decide)
  exact Json.read_indented hstorable.unsplit hstorable.distinct hstorable.short hdepth

theorem write_eq (hshort : c.toJson.Short) (hnested : ∀ e ∈ c.endpoints, e.NestedWithin 200) :
    c.write = .ok c.text := by
  have hdepth : c.toJson.depth ≤ Json.Writing.layout.maxDepth :=
    (Catalog.depth_toJson_le hnested).trans (by decide)
  exact Catalog.write_eq_ok_iff.mpr ⟨⟨hshort, hdepth⟩, rfl⟩

theorem read_of_persist (hstorable : c.toJson.Storable)
    (hnested : ∀ e ∈ c.endpoints, e.NestedWithin 200)
    (h : persist s c root outputFile incremental tag = (s', .ok w)) :
    read s' w.outputPath = .ok (some ⟨c.toJson, c.endpoints.map Endpoint.toJson⟩) := by
  obtain ⟨made, -, -, hreplace, hpath, -⟩ := persist_eq_ok h
  have hplain : Text.Plain c.text := Json.plain_indented 0 c.toJson
  have hload : load s' w.outputPath = .ok ⟨c.toJson, c.endpoints.map Endpoint.toJson⟩ := by
    rw [load, hpath, read_of_replaceWhole hreplace]
    dsimp only
    rw [Utf8.decode_encode hplain]
    dsimp only
    rw [Text.unifyNewlines_of_plain hplain, ofText, read_text hstorable hnested]
    rfl
  rw [read, hload]

/-- **A persisted catalog is read back**, with every member in its place, and so is the text of the
catalog. The payloads may be nested within 200 levels; no string may split a surrogate pair, and no
integer may have more digits than are read. -/
theorem read_persist (hunsplit : c.toJson.Unsplit) (hdistinct : c.toJson.Distinct)
    (hshort : c.toJson.Short) (hnested : ∀ e ∈ c.endpoints, e.NestedWithin 200)
    (h : persist s c root outputFile incremental tag = (s', .ok w)) :
    read s' w.outputPath = .ok (some ⟨c.toJson, c.endpoints.map Endpoint.toJson⟩) ∧
      c.write = .ok c.text ∧ Json.read c.text = .ok c.toJson :=
  ⟨read_of_persist ⟨hunsplit, hdistinct, hshort⟩ hnested h, write_eq hshort hnested,
    read_text ⟨hunsplit, hdistinct, hshort⟩ hnested⟩

private def sampleStore : Store := ⟨.dir "r" .empty .empty, []⟩

private def sampleEndpoint : Endpoint where
  verb := .post
  path := "/a"
  framework := "express"
  sourceFile := "/r/a.js"
  requestBody := .obj [("k", .arr [.float .nan, .str [.ofNat 0xD800, .ofNat 0x10000]])]

private def sampleCatalog : Catalog := ⟨"/r", [sampleEndpoint], ["w"], "t"⟩

/-- A payload with a number that JSON lacks and a lone surrogate comes back from a directory that
is made for it. -/
theorem read_persist_sample :
    read (persist sampleStore sampleCatalog "/r" "o/s.json" false "1").1
        ⟨"/", ["r", "o", "s.json"]⟩ =
      .ok (some ⟨sampleCatalog.toJson, [sampleEndpoint.toJson]⟩) := by
  have hnested : ∀ e ∈ sampleCatalog.endpoints, e.NestedWithin 200 := by
    intro e he
    rw [List.mem_singleton.mp he]
    exact ⟨by decide, fun r hr ↦ by cases hr⟩
  have hpersist : persist sampleStore sampleCatalog "/r" "o/s.json" false "1" =
      ((persist sampleStore sampleCatalog "/r" "o/s.json" false "1").1,
        .ok ⟨⟨"/", ["r", "o", "s.json"]⟩, 1, 0⟩) := rfl
  exact (read_persist (by decide) (by decide) (by decide) hnested hpersist).1

/-! ## Persisting with and without the count -/

/-- A text gives a snapshot, none, or nesting that is too deep, by what the reader says. -/
private theorem ofText_ne_tooDeep {t t' : Text} {v : Json} {container : Json.Container}
    (h : Json.read t = .ok v) : ofText t ≠ .error (.notJson t' (.tooDeep container)) := by
  rw [ofText, h]
  cases v with
  | obj members =>
    dsimp only
    split <;> simp
  | _ => simp

/-- Reading fails for one reason: the file is JSON that nests too deeply. Whatever else is wrong
with the file, there is no snapshot. -/
theorem read_eq_error_iff {container : Json.Container} :
    read s p = .error container ↔ ∃ bytes t, s.read p = .ok bytes ∧ Utf8.decode bytes = .ok t ∧
      Json.read t.unifyNewlines = .error (.tooDeep container) := by
  rw [read, load]
  cases s.read p with
  | error fault => simp
  | ok bytes =>
    simp only [Except.ok.injEq, exists_and_left, exists_eq_left']
    cases Utf8.decode bytes with
    | error fault => simp
    | ok t =>
      simp only [Except.ok.injEq, exists_eq_left']
      cases hread : Json.read t.unifyNewlines with
      | error fault =>
        rw [ofText, hread]
        cases fault <;> simp
      | ok v =>
        split
        · simp
        · next hdeep => exact absurd hdeep (ofText_ne_tooDeep hread)
        · simp

/-- The file at a path is a JSON text that nests too deeply. -/
def TooDeep (s : Store) (p : Path) : Prop :=
  ∃ bytes t container, s.read p = .ok bytes ∧ Utf8.decode bytes = .ok t ∧
    Json.read t.unifyNewlines = .error (.tooDeep container)

theorem tooDeep_iff : TooDeep s p ↔ ∃ container, read s p = .error container := by
  simp only [read_eq_error_iff]
  constructor
  · rintro ⟨bytes, t, container, h⟩
    exact ⟨container, bytes, t, h⟩
  · rintro ⟨container, bytes, t, h⟩
    exact ⟨bytes, t, container, h⟩

/-- The two outcomes are alike but for the count: both succeed or both fail, they leave one store,
and they report one path and one number of endpoints. -/
structure AlikeButCount (a b : Store × Except Fault Written) : Prop where
  store : a.1 = b.1
  succeeds : a.2.isOk = b.2.isOk
  written : ∀ v w, a.2 = .ok v → b.2 = .ok w →
    v.outputPath = w.outputPath ∧ v.written = w.written

/-! ## Counting against an earlier snapshot -/

theorem read_eq_ok_some {loaded : Loaded} (h : read s p = .ok (some loaded)) :
    ∃ bytes t, Utf8.decode bytes = .ok t ∧ ofText t.unifyNewlines = .ok loaded := by
  rw [read] at h
  split at h
  · next hload =>
    cases h
    rw [load] at hload
    split at hload
    · cases hload
    · next bytes _ =>
      split at hload
      · cases hload
      · next t hdecode => exact ⟨bytes, t, hdecode, hload⟩
  · cases h
  · cases h

theorem ofText_eq_ok {t : Text} {loaded : Loaded} (h : ofText t = .ok loaded) :
    ∃ members, Json.read t = .ok (.obj members) ∧
      Json.member? "endpoints" members = some (.arr loaded.entries) := by
  rw [ofText] at h
  split at h
  · cases h
  · next members hread =>
    split at h
    · next entries hmember =>
      cases h
      exact ⟨members, hread, hmember⟩
    · cases h
  · cases h

theorem exists_mapM_entry_of_read {loaded : Loaded} (h : read s p = .ok (some loaded)) :
    ∃ known, (Reconcile.objects loaded.entries).mapM Reconcile.entry = .ok known := by
  obtain ⟨bytes, t, hdecode, htext⟩ := read_eq_ok_some h
  obtain ⟨members, hread, hmember⟩ := ofText_eq_ok htext
  obtain ⟨hstorable, hdepth⟩ := Json.fits_of_read
    (Text.surrogateFree_unifyNewlines (Utf8.surrogateFree_of_decode hdecode)) hread
  have hmem := Json.mem_of_member? hmember
  refine Reconcile.exists_mapM_entry fun entry hentry ↦ ⟨?_, ?_⟩
  · exact Json.short_arr.mp (Json.short_obj.mp hstorable.short _ hmem) _
      (Reconcile.mem_of_mem_objects hentry)
  · have hmembers : Json.depthMembers members + 1 ≤ Json.maxDepth := hdepth
    have hentries : Json.depthItems loaded.entries + 1 ≤ Json.depthMembers members :=
      Json.depthMembers_le_iff.mp le_rfl _ hmem
    have hinside : (Json.obj entry).depth ≤ Json.depthItems loaded.entries :=
      Json.depthItems_le_iff.mp le_rfl _ (Reconcile.mem_of_mem_objects hentry)
    have hlimit : Json.maxDepth ≤ Json.Writing.line.maxDepth := by decide
    omega

/-- The endpoint nests too deeply for a line. -/
def TooDeepForLine (e : Endpoint) : Prop :=
  Json.Writing.line.maxDepth < (Json.obj e.membersWithoutLine).depth

/-- The endpoints of a catalog cannot be counted against the file at a path: the file nests too
deeply, or it is a snapshot and an endpoint nests too deeply to be compared. -/
def Uncountable (s : Store) (p : Path) (c : Catalog) : Prop :=
  TooDeep s p ∨ (∃ loaded, read s p = .ok (some loaded)) ∧ ∃ e ∈ c.endpoints, TooDeepForLine e

theorem countUnchanged_of_uncountable (h : Uncountable s p c) :
    (countUnchanged s p c.endpoints).isOk = false := by
  rw [countUnchanged]
  rcases h with hdeep | ⟨⟨loaded, hread⟩, e, he, hdeep⟩
  · obtain ⟨container, hread⟩ := tooDeep_iff.mp hdeep
    rw [hread]
    rfl
  · obtain ⟨known, hknown⟩ := exists_mapM_entry_of_read hread
    rw [hread]
    dsimp only
    rw [Reconcile.countIn_of_mapM hknown]
    cases hcount : Reconcile.countAmong known c.endpoints with
    | error why => rfl
    | ok n =>
      have hform := (Reconcile.countAmong_eq_ok_iff.mp hcount).1 e he
      obtain ⟨⟨-, hdepth⟩, -⟩ := Reconcile.comparisonForm_eq_ok_iff.mp hform
      rw [Endpoint.withoutLine_members] at hdepth
      exact absurd hdepth (Nat.not_le.mpr hdeep)

theorem short_membersWithoutLine {e : Endpoint} (h : c.toJson.Short) (he : e ∈ c.endpoints) :
    (Json.obj e.membersWithoutLine).Short := by
  have hendpoints : (Json.arr (c.endpoints.map Endpoint.toJson)).Short :=
    Json.short_obj.mp h ("endpoints", _) (by simp)
  have hmembers := Json.short_obj.mp (Json.short_arr.mp hendpoints _ (List.mem_map_of_mem he))
  exact Json.short_obj.mpr fun m hm ↦ hmembers m (List.mem_append_left _ hm)

/-- A catalog that can be written is counted unless something nests too deeply. -/
theorem uncountable_of_write (hwrite : c.write = .ok c.text)
    (h : (countUnchanged s p c.endpoints).isOk = false) : Uncountable s p c := by
  rw [countUnchanged] at h
  cases hread : read s p with
  | error container => exact .inl (tooDeep_iff.mpr ⟨container, hread⟩)
  | ok prior =>
    rw [hread] at h
    cases prior with
    | none => cases h
    | some loaded =>
      refine .inr ⟨⟨loaded, hread⟩, ?_⟩
      obtain ⟨known, hknown⟩ := exists_mapM_entry_of_read hread
      by_contra hshallow
      have hforms : ∀ e ∈ c.endpoints,
          Reconcile.comparisonForm e.members = .ok (Reconcile.formText e.members) := by
        intro e he
        refine Reconcile.comparisonForm_eq_ok_iff.mpr ⟨?_, rfl⟩
        rw [Endpoint.withoutLine_members]
        exact ⟨short_membersWithoutLine (Catalog.write_eq_ok_iff.mp hwrite).1.1 he,
          Nat.not_lt.mp fun hdeep ↦ hshallow ⟨e, he, hdeep⟩⟩
      dsimp only at h
      rw [Reconcile.countIn_of_mapM hknown, Reconcile.countAmong_eq hforms] at h
      cases h

/-! ## Two runs -/

/-- Nothing but the count depends on whether it is made, as long as there is one. -/
theorem persist_alike
    (h : (countUnchanged (s.ensureDirectory (pathFor root outputFile).parent).1
      (pathFor root outputFile) c.endpoints).isOk = true) :
    AlikeButCount (persist s c root outputFile true tag)
      (persist s c root outputFile false tag) := by
  cases hmade : s.ensureDirectory (pathFor root outputFile).parent with
  | mk made fault =>
    rw [hmade] at h
    cases fault with
    | some fault =>
      rw [persist_of_fault hmade, persist_of_fault hmade]
      exact ⟨rfl, rfl, fun v w hv ↦ by cases hv⟩
    | none =>
      rw [persist_of_made hmade, persist_of_made hmade, if_pos rfl, if_neg (by simp)]
      dsimp only at h ⊢
      cases hcount : countUnchanged made (pathFor root outputFile) c.endpoints with
      | error fault =>
        rw [hcount] at h
        cases h
      | ok n =>
        dsimp only
        split
        · exact ⟨rfl, rfl, fun v w hv ↦ by cases hv⟩
        · split
          · exact ⟨rfl, rfl, fun v w hv ↦ by cases hv⟩
          · refine ⟨rfl, rfl, fun v w hv hw ↦ ?_⟩
            cases hv
            cases hw
            exact ⟨rfl, rfl⟩

/-- Without a count the run that counts ends before anything is written. -/
theorem persist_of_uncounted
    (h : (countUnchanged (s.ensureDirectory (pathFor root outputFile).parent).1
      (pathFor root outputFile) c.endpoints).isOk = false) :
    (persist s c root outputFile true tag).2.isOk = false ∧
      (persist s c root outputFile true tag).1 =
        (s.ensureDirectory (pathFor root outputFile).parent).1 := by
  cases hmade : s.ensureDirectory (pathFor root outputFile).parent with
  | mk made fault =>
    rw [hmade] at h
    cases fault with
    | some fault =>
      rw [persist_of_fault hmade]
      exact ⟨rfl, rfl⟩
    | none =>
      rw [persist_of_made hmade, if_pos rfl]
      dsimp only at h ⊢
      cases hcount : countUnchanged made (pathFor root outputFile) c.endpoints with
      | error fault => exact ⟨rfl, rfl⟩
      | ok n =>
        rw [hcount] at h
        cases h

theorem persist_plain_fault (h : (persist s c root outputFile false tag).2.isOk = false) :
    (persist s c root outputFile false tag).1 =
      (s.ensureDirectory (pathFor root outputFile).parent).1 := by
  cases hmade : s.ensureDirectory (pathFor root outputFile).parent with
  | mk made fault =>
    cases fault with
    | some fault => rw [persist_of_fault hmade]
    | none =>
      rw [persist_of_made hmade, if_neg (by decide)] at h ⊢
      dsimp only at h ⊢
      split
      · rfl
      · next text hwrite =>
        rw [hwrite] at h
        dsimp only at h
        split
        · next replaced fault hreplace => exact replaceWhole_fault hreplace
        · next replaced hreplace =>
          rw [hreplace] at h
          cases h

/-- **Counting changes the count only, unless something nests too deeply.** With and without the
count, persisting succeeds or fails alike, leaves one store and reports the same but for the count,
except where the run without the count succeeds and the catalog cannot be counted against the file
that is there once the directories are made: that file is JSON that nests too deeply, or it is a
snapshot and an endpoint nests too deeply to be compared. Then the run with the count fails and
writes nothing. Where the file is no usable snapshot for any other reason the count is zero. -/
theorem persist_incremental_iff (s : Store) (c : Catalog) (root outputFile tag : Text) :
    (AlikeButCount (persist s c root outputFile true tag)
        (persist s c root outputFile false tag) ↔
      ¬(Uncountable (s.ensureDirectory (pathFor root outputFile).parent).1
          (pathFor root outputFile) c ∧
        (persist s c root outputFile false tag).2.isOk = true)) ∧
    (Uncountable (s.ensureDirectory (pathFor root outputFile).parent).1
        (pathFor root outputFile) c →
      (persist s c root outputFile true tag).2.isOk = false ∧
        (persist s c root outputFile true tag).1 =
          (s.ensureDirectory (pathFor root outputFile).parent).1) ∧
    (∀ w, (persist s c root outputFile true tag).2 = .ok w →
      (∀ loaded, read (s.ensureDirectory (pathFor root outputFile).parent).1
        (pathFor root outputFile) ≠ .ok (some loaded)) → w.unchanged = 0) := by
  refine ⟨⟨?_, ?_⟩, fun h ↦ persist_of_uncounted (countUnchanged_of_uncountable h), ?_⟩
  -- Without a count one run fails and the other succeeds.
  · rintro halike ⟨hdeep, hplain⟩
    have hcounting : (persist s c root outputFile true tag).2.isOk = false :=
      (persist_of_uncounted (countUnchanged_of_uncountable hdeep)).1
    rw [halike.succeeds, hplain] at hcounting
    cases hcounting
  · intro h
    cases hcount : (countUnchanged (s.ensureDirectory (pathFor root outputFile).parent).1
        (pathFor root outputFile) c.endpoints).isOk with
    | true => exact persist_alike hcount
    | false =>
      -- Both runs fail, each with nothing but the directories made.
      obtain ⟨hcounting, hstore⟩ :
          (persist s c root outputFile true tag).2.isOk = false ∧
            (persist s c root outputFile true tag).1 =
              (s.ensureDirectory (pathFor root outputFile).parent).1 :=
        persist_of_uncounted hcount
      have hplain : (persist s c root outputFile false tag).2.isOk = false := by
        cases hresult : (persist s c root outputFile false tag).2 with
        | error fault => rfl
        | ok w =>
          obtain ⟨-, -, hwrite, -⟩ := persist_eq_ok (Prod.ext rfl hresult :
            persist s c root outputFile false tag = (_, .ok w))
          exact absurd ⟨uncountable_of_write hwrite hcount, by rw [hresult]; rfl⟩ h
      refine ⟨hstore.trans (persist_plain_fault hplain).symm, hcounting.trans hplain.symm,
        fun v w hv ↦ ?_⟩
      rw [hv] at hcounting
      cases hcounting
  · intro w hw hunusable
    have hresult : persist s c root outputFile true tag =
        ((persist s c root outputFile true tag).1, .ok w) := Prod.ext rfl hw
    obtain ⟨made, hmade, -, -, -, -, hcount⟩ := persist_eq_ok hresult
    rw [hmade] at hunusable
    rw [if_pos rfl, countUnchanged] at hcount
    cases hread : read made (pathFor root outputFile) with
    | error container =>
      rw [hread] at hcount
      cases hcount
    | ok prior =>
      cases prior with
      | some loaded => exact absurd hread (hunusable loaded)
      | none =>
        rw [hread] at hcount
        exact (Except.ok.inj hcount).symm

/-- A store whose default snapshot has the given bytes. -/
private def storeWith (bytes : Bytes) : Store :=
  ⟨.dir ".zeus-core" (.file "output.json" bytes .empty) .empty, []⟩

/-- The exception occurs: over brackets that open too many containers a catalog that can be written
is written without the count, and not with it. -/
theorem persist_over_openings {n : Nat} (hn : Json.maxDepth < n) (hwrite : c.write = .ok c.text) :
    (persist (storeWith (Utf8.encode (List.replicate n (CodePoint.ofChar '[')))) c "/" defaultFile
        false "0").2.isOk = true ∧
      (persist (storeWith (Utf8.encode (List.replicate n (CodePoint.ofChar '[')))) c "/" defaultFile
        true "0").2.isOk = false := by
  have hmade (bytes : Bytes) :
      (storeWith bytes).ensureDirectory (pathFor "/" defaultFile).parent =
        (storeWith bytes, none) := rfl
  have hplain (bytes : Bytes) :
      (persist (storeWith bytes) c "/" defaultFile false "0").2.isOk = true := by
    rw [persist_of_made (hmade bytes), hwrite]
    rfl
  have hbytes (bytes : Bytes) :
      (storeWith bytes).read (pathFor "/" defaultFile) = .ok bytes := rfl
  have hbrackets : Text.Plain (List.replicate n (CodePoint.ofChar '[')) := .replicate (by decide) n
  have hread := Json.read_replicate_opening hn []
  rw [List.append_nil] at hread
  refine ⟨hplain _, (persist_of_uncounted (countUnchanged_of_uncountable (.inl
    ⟨_, _, .array, ?_, Utf8.decode_encode hbrackets, ?_⟩))).1⟩
  · rw [hmade, hbytes]
  · rw [Text.unifyNewlines_of_plain hbrackets, hread]

end Snapshot

end RouteCatalog
