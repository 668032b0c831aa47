import RouteCatalog.Proofs.Catalog.Reconcile
import RouteCatalog.Proofs.Catalog.Snapshot
import RouteCatalog.Proofs.Scan

/-!
# Scanning again

A snapshot is written into the tree that was scanned, so writing it could change what the next scan
finds. Persisting changes one file and adds directories (`Persisted`); as long as that file is no
source, the next scan finds the same endpoints and gives the same warnings (`scan_of_persisted`).

The snapshot is then read as it was written, and an endpoint counts as unchanged when it agrees with
the last endpoint that has its verb and path (`persist_rescan`). Endpoints that no other shares verb
and path with agree with themselves.
-/

namespace RouteCatalog.Snapshot

variable {s s' : Store} {c : Catalog} {root outputFile tag now : Text}
  {incremental : Bool} {p : Path} {w : Written} {destination : List Text}

/-! ## What persisting changes -/

/-- One file was written and directories were added, and nothing else has changed. -/
structure Persisted (s s' : Store) (p : Path) (destination : List Text) : Prop where
  directory : s'.directory = s.directory
  dirs : ∀ ⦃m⦄, s.node? m = some .dir → s'.node? m = some .dir
  distinct : s.files.Distinct → s'.files.Distinct
  /-- Every other file is as it was, and there is no new one. -/
  files : ∀ ⦃m content⦄, m ≠ destination →
    (s'.node? m = some (.file content) ↔ s.node? m = some (.file content))
  leads : s'.locate p = .ok destination
  stored : ∃ content, s'.node? destination = some (.file content)
  named : p.parts ≠ []
  proper : p.name ≠ ".."

theorem persisted_of_persist
    (h : persist s c root outputFile incremental tag = (s', .ok w)) :
    ∃ destination, Persisted s s' (pathFor root outputFile) destination := by
  obtain ⟨made, hmade, -, hreplace, -⟩ := persist_eq_ok h
  have hgrows := Store.grows_ensureDirectory hmade
  obtain ⟨source, destination, hready, hreplaced⟩ := replaced_of_replaceWhole hreplace
  refine ⟨destination, hreplaced.directory.trans hgrows.directory,
    fun m hm ↦ (hreplaced.dir_iff hready.replaced m).mpr (hgrows.kept hm),
    fun hs ↦ hreplaced.distinct (hgrows.distinct hs), fun m content hne ↦ ?_,
    (hreplaced.locate_iff hready.replaced).mpr hready.leads, ⟨_, hreplaced.stored⟩, hready.named,
    hready.proper⟩
  rw [hreplaced.file_iff hne, hgrows.file_iff]

/-- A path to the file keeps leading there when it is replaced once more. -/
theorem Persisted.replaceable (h : Persisted s s' p destination)
    (htemporary : (s'.createFile (temporary s' p tag)).isOk = true) :
    ∃ source, Replaceable s' p tag source destination := by
  cases hcreate : s'.createFile (temporary s' p tag) with
  | error fault =>
    rw [hcreate] at htemporary
    cases htemporary
  | ok created =>
    obtain ⟨source, hbeside, hfree, -⟩ := createFile_eq_ok_iff.mp hcreate
    obtain ⟨content, hstored⟩ := h.stored
    exact ⟨source, hbeside, hfree, h.leads, by rw [hstored]; simp, h.named, h.proper⟩

theorem Persisted.ensureDirectory (h : Persisted s s' p destination) :
    s'.ensureDirectory p.parent = (s', none) := by
  obtain ⟨above, hparent, hdir, -⟩ := Store.exists_of_locate h.named h.leads
  exact Store.ensureDirectory_of_dir hparent hdir

/-! ## Sources -/

/-- The file that was written is no source below a root. -/
def Apart (s : Store) (root : Text) (destination : List Text) : Prop :=
  ∀ l, Sources.Candidate l → (Scan.rootOf s root).parts ++ l ≠ destination

theorem Persisted.rootOf_eq (h : Persisted s s' p destination) (root : Text) :
    Scan.rootOf s' root = Scan.rootOf s root := by
  rw [Scan.rootOf, Scan.rootOf, h.directory]

theorem Persisted.leadsDown (hs : s.Sound) (h : Persisted s s' p destination) {l : List Text}
    {content : Bytes} (hnode : s'.node? l = some (.file content)) :
    ∀ name ∈ l, Store.LeadsDown name := by
  -- Only the file that was written may be new, and the path to it was followed down to it.
  by_cases heq : l = destination
  · subst heq
    refine Store.leadsDown_of_locate (fun name hname ↦ ?_) h.leads
    rw [h.directory] at hname
    exact (hs.isFileName hs.directory name hname).leadsDown
  · exact fun name hname ↦ (hs.isFileName ((h.files heq).mp hnode) name hname).leadsDown

theorem Persisted.pathsOf_eq (hs : s.Sound) (h : Persisted s s' p destination)
    (hapart : Apart s root destination) :
    Scan.pathsOf s' root none = Scan.pathsOf s root none := by
  rw [Scan.pathsOf, Scan.pathsOf, h.rootOf_eq]
  refine Store.sources_eq_of_files (Scan.straight_rootOf hs root) hs.files.distinct
    (h.distinct hs.files.distinct)
    (fun l content hnode name hname ↦ (hs.isFileName hnode name hname).leadsDown)
    (fun l content hnode ↦ h.leadsDown hs hnode) fun l hl ↦ ?_
  exact exists_congr fun content ↦ h.files (hapart l hl)

/-- The default snapshot is no source, whatever the root. -/
theorem Persisted.apart_defaultFile (h : Persisted s s' (pathFor root defaultFile) destination) :
    Apart s root destination := by
  rintro l hl rfl
  have hname : (pathFor root defaultFile).name = "output.json" := by
    have hparts : (pathFor root defaultFile).parts =
        Path.names root ++ ([".zeus-core", "output.json"] : List Text) := rfl
    rw [Path.name, hparts, List.getLast?_append]
    rfl
  obtain ⟨above, -, -, hdestination⟩ := Store.exists_of_locate h.named h.leads
  obtain ⟨name, hlast, hsource⟩ := hl.isSource_last
  have hdestination := congrArg List.getLast? (hdestination h.proper)
  rw [List.getLast?_append, hlast, List.getLast?_append, hname] at hdestination
  obtain rfl : name = "output.json" := Option.some.inj hdestination
  have hnot : Sources.isSource "output.json" = false := by decide
  rw [hnot] at hsource
  cases hsource

theorem Persisted.apart_of_locate (hs : s.Sound) (h : Persisted s s' p destination)
    (hout : ∀ q ∈ Scan.pathsOf s' root none, s'.locate q ≠ s'.locate p) :
    Apart s root destination := by
  rintro l hl hdestination
  obtain ⟨content, hstored⟩ := h.stored
  rw [← hdestination] at hstored
  obtain ⟨ls, hsources, -, hmem⟩ := Store.exists_sources (Scan.straight_rootOf hs root)
    (h.distinct hs.files.distinct) fun l content hnode ↦ h.leadsDown hs hnode
  -- The file stands where a source would, so it is one of them now, and its path leads to it.
  have hpath : (⟨"/", (Scan.rootOf s root).parts ++ l⟩ : Path) ∈ Scan.pathsOf s' root none := by
    rw [Scan.pathsOf, h.rootOf_eq, hsources]
    exact List.mem_map_of_mem ((hmem l).mpr ⟨hl, content, hstored⟩)
  refine hout _ hpath ?_
  rw [h.leads, ← hdestination]
  exact Store.locate_of_node? rfl (h.leadsDown hs hstored) (by rw [hstored]; simp)

theorem scan_at_time {dialects : List Dialect} (now' : Text)
    (hscan : scan s dialects root none now = .ok c) :
    scan s dialects root none now' = .ok { c with scannedAt := now' } := by
  obtain ⟨hcheck, found, hfiles, rfl⟩ := Scan.scan_eq_ok_iff.mp hscan
  exact Scan.scan_eq_ok_iff.mpr ⟨hcheck, found, hfiles, rfl⟩

/-- **The next scan finds what the last one found**, unless a source was written. -/
theorem scan_of_persisted {dialects : List Dialect} {now' : Text} (hs : s.Sound)
    (h : Persisted s s' p destination) (hapart : Apart s root destination)
    (hscan : scan s dialects root none now = .ok c) :
    scan s' dialects root none now' = .ok { c with scannedAt := now' } := by
  obtain ⟨hcheck, found, hfiles, rfl⟩ := Scan.scan_eq_ok_iff.mp hscan
  have hread : ∀ q ∈ Scan.pathsOf s root none, s'.read q = s.read q := by
    intro q hq
    obtain ⟨l, bytes, hcandidate, rfl, hlocate, hnode⟩ := Scan.exists_of_mem_pathsOf hs hq
    rw [Store.read_eq_ok_iff.mpr ⟨_, hlocate, hnode⟩]
    exact Store.read_eq_ok_iff.mpr ⟨_, Store.locate_of_dirs h.dirs h.directory hlocate,
      (h.files (hapart l hcandidate)).mpr hnode⟩
  refine Scan.scan_eq_ok_iff.mpr ⟨hcheck, found, ?_, by rw [h.rootOf_eq]⟩
  rw [h.pathsOf_eq hs hapart, Scan.files_congr hread, hfiles]

/-! ## The count -/

/-- Against a snapshot of the endpoints themselves, those count that agree with the last of their
verb and path. -/
theorem countUnchanged_self {value : Json} {endpoints : List Endpoint}
    (hread : read s p = .ok (some ⟨value, endpoints.map Endpoint.toJson⟩))
    (hendpoints : ∀ e ∈ endpoints, e.Storable) (hnested : ∀ e ∈ endpoints, e.NestedWithin 200) :
    countUnchanged s p endpoints = .ok (Reconcile.countAgreeingWithLast endpoints) := by
  have hcomparable : ∀ e ∈ endpoints, Reconcile.Comparable e.toJson := by
    intro e he
    obtain ⟨hunsplit, hdistinct, hshort⟩ := (hendpoints e he).toJson
    have hdepth : e.toJson.depth ≤ Json.Writing.line.maxDepth :=
      (Endpoint.depth_toJson_le (hnested e he)).trans (by decide)
    exact ⟨hunsplit, hdistinct, hshort, hdepth⟩
  have hitems : ∀ v ∈ endpoints.map Endpoint.toJson, Reconcile.Comparable v := by
    intro v hv
    obtain ⟨e, he, rfl⟩ := List.mem_map.mp hv
    exact hcomparable e he
  rw [countUnchanged, hread, ← Reconcile.countAgreeing_map_toJson_self]
  dsimp only
  rw [Reconcile.countIn_eq hitems hcomparable]
  rfl

/-- **Regenerating an unchanged tree.** Scan a root, persist the catalog, and then scan and persist
again, counting what did not change. The second scan finds the same endpoints in the same order and
gives the same warnings, and the second snapshot is written as long as there is a place for its
temporary file. An endpoint counts as unchanged when it agrees with the last endpoint that has its
verb and path; when no two endpoints share both, all of them count.

The snapshot may be anywhere but where a source is. The payloads may be nested within 200 levels. -/
theorem persist_rescan {m : Moment} (m' : Moment) (tag' : Text) (hs : s.Sound)
    (hroot : root.Unsplit)
    (hscan : scan s Dialect.builtIn root none m.stamp = .ok c)
    (hnested : ∀ e ∈ c.endpoints, e.NestedWithin 200)
    (hpersist : persist s c root outputFile incremental tag = (s', .ok w))
    (hout : outputFile = defaultFile ∨ ∀ q ∈ Scan.pathsOf s' root none,
      s'.locate q ≠ s'.locate (pathFor root outputFile))
    (htemporary : (s'.createFile (temporary s' (pathFor root outputFile) tag')).isOk = true) :
    ∃ r s'' w', scan s' Dialect.builtIn root none m'.stamp = .ok r ∧
      r.endpoints = c.endpoints ∧ r.warnings = c.warnings ∧
      persist s' r root outputFile true tag' = (s'', .ok w') ∧
      w'.written = r.endpoints.length ∧
      w'.unchanged = Reconcile.countAgreeingWithLast r.endpoints ∧
      ((r.endpoints.map fun e ↦ (e.verb, e.path)).Nodup → w'.unchanged = w'.written) := by
  obtain ⟨destination, hpersisted⟩ := persisted_of_persist hpersist
  -- The snapshot is no source, whichever way that is known.
  have hapart : Apart s root destination := by
    rcases hout with rfl | hout
    · exact hpersisted.apart_defaultFile
    · exact hpersisted.apart_of_locate hs hout
  obtain ⟨hstorable, hendpoints⟩ := Scan.storable_toJson hs hroot (Scan.unsplit_stamp m) hscan
  obtain ⟨-, -, -, -, hpath, -⟩ := persist_eq_ok hpersist
  have hread := hpath ▸ read_of_persist hstorable hnested hpersist
  obtain ⟨source, hready⟩ := hpersisted.replaceable htemporary
  have hrescan : scan s' Dialect.builtIn root none m'.stamp =
      .ok { c with scannedAt := m'.stamp } := scan_of_persisted hs hpersisted hapart hscan
  generalize hr : { c with scannedAt := m'.stamp } = r at hrescan
  have hsame : r.endpoints = c.endpoints := hr ▸ rfl
  -- The catalog of the second scan is one that the first could have had at that time.
  obtain ⟨hstorable', -⟩ := Scan.storable_toJson hs hroot (Scan.unsplit_stamp m')
    (scan_at_time m'.stamp hscan)
  rw [hr] at hstorable'
  have hwrite : r.write = .ok r.text := write_eq hstorable'.short (hsame ▸ hnested)
  obtain ⟨s'', hreplace, -⟩ := replaceWhole_of_replaceable hready (Utf8.encode r.text)
  have hagain : persist s' r root outputFile true tag' = (s'', .ok ⟨pathFor root outputFile,
      r.endpoints.length, Reconcile.countAgreeingWithLast r.endpoints⟩) := by
    rw [persist_of_made hpersisted.ensureDirectory, if_pos rfl, hsame,
      countUnchanged_self hread hendpoints hnested]
    dsimp only
    rw [hwrite]
    dsimp only
    rw [hreplace]
  exact ⟨r, s'', _, hrescan, hsame, hr ▸ rfl, hagain, rfl, rfl,
    fun hnodup ↦ Reconcile.countAgreeingWithLast_of_nodup hnodup⟩

private def routesFile : Text :=
  "// express\n/** @requestBody \x7b\"k\": [true]\x7d */\napp.get('/a', f)\napp.post('/a', g)"

private def routesStore : Store :=
  ⟨.dir "r" (.file "a.js" (Utf8.encode routesFile) .empty) .empty, []⟩

private def routesEndpoint (verb : Verb) (line : Int) : Endpoint where
  verb := verb
  path := "/a"
  framework := "express"
  sourceFile := "/r/a.js"
  requestBody := .obj [("k", .arr [.bool true])]
  line := some line

private def routesEndpoints : List Endpoint := [routesEndpoint .get 3, routesEndpoint .post 4]

private def routesCatalog : Catalog := ⟨"/r", routesEndpoints, [], (Moment.mk 0).stamp⟩

private theorem sound_routesStore : routesStore.Sound where
  files := by
    have hnames : ∀ name ∈ (["r", "a.js"] : List Text), Path.IsFileName name := by
      intro name hname
      refine ⟨⟨?_, ?_, ?_⟩, ⟨?_, ?_, ?_⟩, ?_⟩ <;> revert name <;> decide
    refine ⟨hnames _ (by decide), ⟨hnames _ (by decide), ?_, rfl, trivial⟩, rfl, trivial⟩
    decide +kernel
  directory := rfl

/-- Two routes of one path are both unchanged when they are persisted again beside their source. -/
theorem persist_rescan_routes :
    ∃ r s'' w', scan (persist routesStore routesCatalog "/r" "o.json" false "1").1 Dialect.builtIn
        "/r" none (Moment.mk 1).stamp = .ok r ∧ r.endpoints = routesEndpoints ∧
      persist (persist routesStore routesCatalog "/r" "o.json" false "1").1 r "/r" "o.json" true
        "1" = (s'', .ok w') ∧ w'.unchanged = 2 := by
  have hsources : Scan.pathsOf routesStore "/r" none = [⟨"/", ["r", "a.js"]⟩] := by decide +kernel
  have hscan : scan routesStore Dialect.builtIn "/r" none (Moment.mk 0).stamp =
      .ok routesCatalog := by
    refine Scan.scan_eq_ok_iff.mpr ⟨rfl, ⟨routesEndpoints, []⟩, ?_, rfl⟩
    rw [hsources]
    rfl
  have hnested : ∀ e ∈ routesCatalog.endpoints, e.NestedWithin 200 := by
    intro e he
    simp only [routesCatalog, routesEndpoints, List.mem_cons, List.not_mem_nil, or_false] at he
    rcases he with rfl | rfl
    · exact ⟨by decide, fun r hr ↦ by cases hr⟩
    · exact ⟨by decide, fun r hr ↦ by cases hr⟩
  have hpersist : persist routesStore routesCatalog "/r" "o.json" false "1" =
      ((persist routesStore routesCatalog "/r" "o.json" false "1").1,
        .ok ⟨⟨"/", ["r", "o.json"]⟩, 2, 0⟩) := rfl
  have hsources' : Scan.pathsOf (persist routesStore routesCatalog "/r" "o.json" false "1").1 "/r"
      none = [⟨"/", ["r", "a.js"]⟩] := by decide +kernel
  obtain ⟨r, s'', w', hrescan, hsame, -, hagain, hwritten, -, hall⟩ :=
    persist_rescan ⟨1⟩ "1" sound_routesStore (by decide) hscan hnested hpersist
      (.inr (by rw [hsources']; decide)) rfl
  refine ⟨r, s'', w', hrescan, hsame, hagain, ?_⟩
  rw [hall (by rw [hsame]; decide), hwritten, hsame]
  rfl

end RouteCatalog.Snapshot
