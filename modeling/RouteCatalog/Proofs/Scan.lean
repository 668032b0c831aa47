import RouteCatalog.Catalog.Moment
import RouteCatalog.Proofs.Files.Collect
import RouteCatalog.Proofs.Json.Plain
import RouteCatalog.Proofs.Route.Dialect
import RouteCatalog.Proofs.Text.Utf8
import RouteCatalog.Scan

/-!
# What a scan depends on, and what it gives

A scan depends on the paths of the files and on their contents and on nothing else of the store
(`Scan.files_congr`). What the built-in dialects find in a sound store can be written as JSON and
read again (`Scan.storable_of_files`): the texts come from the names of files and from their
contents, which hold no surrogates however the bytes look.
-/

namespace RouteCatalog.Scan

variable {s s' : Store} {dialects : List Dialect} {p : Path} {ps : List Path} {found : Gathered}

/-! ## One file and many -/

theorem sourceText_spec (bytes : Bytes) :
    (sourceText bytes).SurrogateFree ∧ (sourceText bytes).length ≤ bytes.length :=
  ⟨Text.surrogateFree_unifyNewlines (Utf8.surrogateFree_decodeReplacing bytes),
    (Text.length_unifyNewlines_le _).trans (Utf8.length_decodeReplacing_le bytes)⟩

theorem file_congr (h : s'.read p = s.read p) : file s' dialects p = file s dialects p := by
  rw [file, file, contentAt, contentAt, h]

/-- **A scan depends on paths and contents only.** -/
theorem files_congr (h : ∀ p ∈ ps, s'.read p = s.read p) :
    files s' dialects ps = files s dialects ps := by
  induction ps with
  | nil => rfl
  | cons p rest ih =>
    obtain ⟨hp, hrest⟩ := List.forall_mem_cons.mp h
    rw [files, files, file_congr hp, ih hrest]

theorem file_of_read {bytes : Bytes} (h : s.read p = .ok bytes) :
    file s dialects p =
      match findings dialects p.toText (sourceText bytes) with
      | .ok fs => .ok ⟨endpointsOf fs, warningsOf p.toText fs⟩
      | .error failure => .error (.undecided failure) := by
  rw [file, contentAt, h]
  rfl

/-- A file that has a result was read, and every applicable dialect had its turn. -/
theorem file_eq_ok (h : file s dialects p = .ok found) :
    ∃ bytes fs, s.read p = .ok bytes ∧ findings dialects p.toText (sourceText bytes) = .ok fs ∧
      found = ⟨endpointsOf fs, warningsOf p.toText fs⟩ := by
  cases hread : s.read p with
  | error fault =>
    rw [file, contentAt, hread] at h
    cases h
  | ok bytes =>
    rw [file_of_read hread] at h
    split at h
    · next fs hfindings =>
      cases h
      exact ⟨bytes, fs, rfl, hfindings, rfl⟩
    · cases h

theorem files_cons_eq_ok (h : files s dialects (p :: ps) = .ok found) :
    ∃ first others, file s dialects p = .ok first ∧ files s dialects ps = .ok others ∧
      found = first ++ others := by
  rw [files] at h
  obtain ⟨first, hfirst, h⟩ := exists_of_bind_eq_ok h
  obtain ⟨others, hothers, h⟩ := exists_of_bind_eq_ok h
  cases h
  exact ⟨first, others, hfirst, hothers, rfl⟩

/-- What holds of the findings in every file holds of what a scan gathers. -/
theorem forall_of_files {endpoint : Endpoint → Prop} {warns : Text → Prop}
    (hfile : ∀ p ∈ ps, ∀ first, file s dialects p = .ok first →
      (∀ e ∈ first.endpoints, endpoint e) ∧ ∀ t ∈ first.warnings, warns t)
    (h : files s dialects ps = .ok found) :
    (∀ e ∈ found.endpoints, endpoint e) ∧ ∀ t ∈ found.warnings, warns t := by
  induction ps generalizing found with
  | nil =>
    cases h
    exact ⟨fun _ h ↦ absurd h List.not_mem_nil, fun _ h ↦ absurd h List.not_mem_nil⟩
  | cons p rest ih =>
    obtain ⟨first, others, hfirst, hothers, rfl⟩ := files_cons_eq_ok h
    obtain ⟨hp, hrest⟩ := List.forall_mem_cons.mp hfile
    obtain ⟨hendpoints, hwarnings⟩ := hp first hfirst
    obtain ⟨hendpoints', hwarnings'⟩ := ih hrest hothers
    exact ⟨fun e he ↦ (List.mem_append.mp he).elim (hendpoints e) (hendpoints' e),
      fun t ht ↦ (List.mem_append.mp ht).elim (hwarnings t) (hwarnings' t)⟩

/-! ## Findings -/

theorem applicable_cons (d : Dialect) (rest : List Dialect) (file content : Text) :
    applicable (d :: rest) file content =
      match d.applies file content with
      | .error failure => .error failure
      | .ok applies =>
        (applicable rest file content).map fun ds ↦ if applies then d :: ds else ds := by
  rw [applicable, List.filterMapM_cons, ← applicable]
  cases d.applies file content with
  | error failure => rfl
  | ok applies =>
    cases applies with
    | false => cases applicable rest file content <;> rfl
    | true => cases applicable rest file content <;> rfl

theorem applicable_sublist {file content : Text} {ds : List Dialect}
    (h : applicable dialects file content = .ok ds) : ds.Sublist dialects := by
  induction dialects generalizing ds with
  | nil =>
    cases h
    exact List.Sublist.refl []
  | cons d rest ih =>
    rw [applicable_cons] at h
    split at h
    · cases h
    · next applies happlies =>
      obtain ⟨ds, hrest, h⟩ := exists_of_map_eq_ok h
      cases h
      cases applies with
      | false => exact (ih hrest).cons d
      | true => exact (ih hrest).cons_cons d

theorem unsplit_warning {file name : Text} (hfile : file.Unsplit) (hname : name.Unsplit) :
    (warning file name).Unsplit := by
  have hfront : Text.Unsplit "Failed to parse" := by decide
  have hwith : Text.Unsplit "with" := by decide
  have heq : warning file name = ("Failed to parse" : Text) ++ CodePoint.ofChar ' ' ::
      (file ++ CodePoint.ofChar ' ' :: (("with" : Text) ++ CodePoint.ofChar ' ' :: name)) := by
    simp [warning, Text.ofString]
  rw [heq]
  exact hfront.append_cons (by decide) (hfile.append_cons (by decide)
    (hwith.append_cons (by decide) hname))

theorem origin_of_findings {file content : Text} {fs : List Finding}
    (h : findings dialects file content = .ok fs) :
    (∀ e ∈ endpointsOf fs, ∃ d ∈ dialects, ∃ endpoints,
        d.extract file content = .ok endpoints ∧ e ∈ endpoints) ∧
      ∀ t ∈ warningsOf file fs, ∃ d ∈ dialects, t = warning file d.name := by
  cases happlicable : applicable dialects file content with
  | error failure =>
    rw [findings, happlicable] at h
    cases h
  | ok ds =>
    rw [findings, happlicable] at h
    cases h
    have hds := (applicable_sublist happlicable).subset
    refine ⟨fun e he ↦ ?_, fun t ht ↦ ?_⟩
    · obtain ⟨f, hf, he⟩ := List.mem_flatMap.mp he
      obtain ⟨d, hd, rfl⟩ := List.mem_map.mp hf
      dsimp only at he
      split at he
      · next endpoints hextract => exact ⟨d, hds hd, endpoints, hextract, he⟩
      · cases he
    · obtain ⟨f, hf, ht⟩ := List.mem_filterMap.mp ht
      obtain ⟨d, hd, rfl⟩ := List.mem_map.mp hf
      dsimp only at ht
      split at ht
      · cases ht
      · exact ⟨d, hds hd, (Option.some.inj ht).symm⟩

theorem storable_of_findings {file content : Text} {fs : List Finding} (hfile : file.Unsplit)
    (hcontent : content.SurrogateFree) (hlength : content.length < 0x8000000000000000)
    (h : findings Dialect.builtIn file content = .ok fs) :
    (∀ e ∈ endpointsOf fs, e.Storable) ∧ ∀ t ∈ warningsOf file fs, t.Unsplit := by
  obtain ⟨hendpoints, hwarnings⟩ := origin_of_findings h
  refine ⟨fun e he ↦ ?_, fun t ht ↦ ?_⟩
  · obtain ⟨d, hd, endpoints, hextract, he⟩ := hendpoints e he
    exact Dialect.storable_of_mem_extract hd hfile hcontent hlength hextract e he
  · obtain ⟨d, hd, rfl⟩ := hwarnings t ht
    have hnames : ∀ d ∈ Dialect.builtIn, d.name.Unsplit := by
      simp only [Dialect.builtIn, List.forall_mem_cons]
      exact ⟨by decide, by decide, by decide, fun _ h ↦ absurd h List.not_mem_nil⟩
    exact unsplit_warning hfile (hnames d hd)

/-- **What a scan finds in a sound store can be written and read again.** -/
theorem storable_of_files (hs : s.Sound) (hps : ∀ p ∈ ps, p.toText.Unsplit)
    (h : files s Dialect.builtIn ps = .ok found) :
    (∀ e ∈ found.endpoints, e.Storable) ∧ ∀ t ∈ found.warnings, t.Unsplit := by
  refine forall_of_files (fun p hp first hfile ↦ ?_) h
  obtain ⟨bytes, fs, hread, hfindings, rfl⟩ := file_eq_ok hfile
  obtain ⟨l, -, hnode⟩ := Store.read_eq_ok_iff.mp hread
  have hlength : bytes.length < 0x8000000000000000 := (hs.files.of_node? hnode).2 bytes rfl
  obtain ⟨hfree, hle⟩ := sourceText_spec bytes
  exact storable_of_findings (hps p hp) hfree (hle.trans_lt hlength) hfindings

/-! ## A scan of a directory -/

theorem straight_rootOf (hs : s.Sound) (root : Text) : Store.Straight (rootOf s root) where
  root := rfl
  parts name hname := by
    rcases (Path.mem_parts_resolve hname).1 with hdirectory | hnames
    · exact (hs.isFileName hs.directory name hdirectory).isPart
    · exact Path.isPart_of_mem_names hnames
  ne_points name hname := (Path.mem_parts_resolve hname).2

theorem unsplit_rootOf (hs : s.Sound) {root : Text} (hroot : root.Unsplit) :
    (rootOf s root).toText.Unsplit := by
  refine Path.unsplit_toText rfl fun name hname ↦ ?_
  rcases (Path.mem_parts_resolve hname).1 with hdirectory | hnames
  · exact (hs.isFileName hs.directory name hdirectory).unsplit
  · exact Path.unsplit_of_mem_names hroot hnames

theorem exists_of_mem_pathsOf (hs : s.Sound) {root : Text} (hp : p ∈ pathsOf s root none) :
    ∃ l content, Sources.Candidate l ∧ p = ⟨"/", (rootOf s root).parts ++ l⟩ ∧
      s.locate p = .ok p.parts ∧ s.node? p.parts = some (.file content) := by
  obtain ⟨ls, hsources, -, hmem⟩ := Store.exists_sources (straight_rootOf hs root) hs.files.distinct
    fun l content hnode name hname ↦ (hs.isFileName hnode name hname).leadsDown
  rw [pathsOf, hsources] at hp
  obtain ⟨l, hl, rfl⟩ := List.mem_map.mp hp
  obtain ⟨hcandidate, content, hnode⟩ := (hmem l).mp hl
  -- The names are those of a file that exists, so they lead to it.
  refine ⟨l, content, hcandidate, rfl, Store.locate_of_node? rfl (fun name hname ↦ ?_) ?_, hnode⟩
  · exact (hs.isFileName hnode name hname).leadsDown
  · rw [hnode]
    simp

theorem unsplit_of_mem_pathsOf (hs : s.Sound) {root : Text} (hp : p ∈ pathsOf s root none) :
    p.toText.Unsplit := by
  obtain ⟨l, content, -, rfl, -, hnode⟩ := exists_of_mem_pathsOf hs hp
  exact Path.unsplit_toText rfl fun name hname ↦ (hs.isFileName hnode name hname).unsplit

theorem scan_eq_ok_iff {root now : Text} {given : Option (List Text)} {c : Catalog} :
    scan s dialects root given now = .ok c ↔
      Files.check root = .ok () ∧ ∃ found, files s dialects (pathsOf s root given) = .ok found ∧
        c = ⟨(rootOf s root).toText, found.endpoints, found.warnings, now⟩ := by
  rw [scan, gather]
  cases Files.check root with
  | error fault =>
    constructor
    · intro h
      cases h
    · rintro ⟨h, -⟩
      cases h
  | ok u =>
    cases hfiles : files s dialects (pathsOf s root given) with
    | error fault =>
      constructor
      · intro h
        cases h
      · rintro ⟨-, found, h, -⟩
        cases h
    | ok found =>
      constructor
      · intro h
        cases h
        exact ⟨rfl, found, rfl, rfl⟩
      · rintro ⟨-, found', h, rfl⟩
        cases h
        rfl

theorem unsplit_stamp (m : Moment) : m.stamp.Unsplit := by
  have hpadded (width n : Nat) : Text.Plain (Text.padded width n) :=
    (Text.Plain.replicate (by decide) _).append (Text.plain_ofNat n)
  have hdash : Text.Plain "-" := by decide
  have hcolon : Text.Plain ":" := by decide
  have htime : Text.Plain "T" := by decide
  have hpoint : Text.Plain "." := by decide
  have hzone : Text.Plain "Z" := by decide
  have hdate := ((((hpadded 4 m.date.1).append hdash).append (hpadded 2 m.date.2.1)).append
    hdash).append (hpadded 2 m.date.2.2)
  have htimeOfDay : Text.Plain m.timeOfDay :=
    ((((hpadded 2 _).append hcolon).append (hpadded 2 _)).append hcolon).append (hpadded 2 _)
  exact (Text.SurrogateFree.of_plain (((((hdate.append htime).append htimeOfDay).append
    hpoint).append (hpadded 3 (m.millis % 1000))).append hzone)).unsplit

/-- Every endpoint of a scan names its dialect and the path of its file, and every warning is about
the path of a file. -/
theorem origin_of_scan {root now : Text} {c : Catalog}
    (h : scan s Dialect.builtIn root none now = .ok c) :
    (∀ e ∈ c.endpoints, (∃ d ∈ Dialect.builtIn, e.framework = d.name) ∧
        ∃ p ∈ pathsOf s root none, e.sourceFile = p.toText) ∧
      ∀ t ∈ c.warnings, ∃ d ∈ Dialect.builtIn, ∃ p ∈ pathsOf s root none,
        t = warning p.toText d.name := by
  obtain ⟨-, found, hfiles, rfl⟩ := scan_eq_ok_iff.mp h
  refine forall_of_files (fun p hp first hfile ↦ ?_) hfiles
  obtain ⟨bytes, fs, -, hfindings, rfl⟩ := file_eq_ok hfile
  obtain ⟨hendpoints, hwarnings⟩ := origin_of_findings hfindings
  refine ⟨fun e he ↦ ?_, fun t ht ↦ ?_⟩
  · obtain ⟨d, hd, endpoints, hextract, he⟩ := hendpoints e he
    obtain ⟨hframework, hsource⟩ := Dialect.names_of_mem_extract hd hextract he
    exact ⟨⟨d, hd, hframework⟩, p, hp, hsource⟩
  · obtain ⟨d, hd, heq⟩ := hwarnings t ht
    exact ⟨d, hd, p, hp, heq⟩

theorem storable_toJson (hs : s.Sound) {root now : Text} (hroot : root.Unsplit)
    (hnow : now.Unsplit) {c : Catalog} (h : scan s Dialect.builtIn root none now = .ok c) :
    c.toJson.Storable ∧ ∀ e ∈ c.endpoints, e.Storable := by
  obtain ⟨-, found, hfiles, rfl⟩ := scan_eq_ok_iff.mp h
  obtain ⟨hendpoints, hwarnings⟩ :=
    storable_of_files hs (fun p hp ↦ unsplit_of_mem_pathsOf hs hp) hfiles
  have hkeys : ∀ key ∈ (["scannedAt", "rootDir", "endpoints", "warnings"] : List Text),
      key.Unsplit := by decide
  have hdiffer : (["scannedAt", "rootDir", "endpoints", "warnings"] : List Text).Nodup := by decide
  refine ⟨Json.storable_obj hdiffer fun m hm ↦ ⟨hkeys _ (List.mem_map_of_mem hm), ?_⟩,
    hendpoints⟩
  simp only [List.mem_cons, List.not_mem_nil, or_false] at hm
  rcases hm with rfl | rfl | rfl | rfl
  · exact Json.storable_str hnow
  · exact Json.storable_str (unsplit_rootOf hs hroot)
  · refine Json.storable_arr fun v hv ↦ ?_
    obtain ⟨e, he, rfl⟩ := List.mem_map.mp hv
    exact (hendpoints e he).toJson
  · refine Json.storable_arr fun v hv ↦ ?_
    obtain ⟨t, ht, rfl⟩ := List.mem_map.mp hv
    exact Json.storable_str (hwarnings t ht)

end RouteCatalog.Scan
