import Mathlib.Data.List.Flatten
import Mathlib.Data.List.Perm.Basic
import RouteCatalog.Proofs.Scan

/-!
# Turns

A scan gives each dialect a turn on each file that it applies to, file by file and in the order of
the dialects. What the scan gathers is what the turns give, one after the other
(`Scan.files_eq_of_readable`), so lists of files may be scanned in parts, and a dialect that fails
takes nothing from the others. The only faults are those of files that cannot be read
(`Scan.files_of_unreadable`).

A walk through a directory scans the sources below it as if they had been given
(`Scan.scan_compositional`). It starts from the resolved directory, where names of two points have
been worked off; so the sources are those below the directory as it was written, as long as the
system can follow it.
-/

namespace RouteCatalog

namespace Dialect

/-- The dialect says of every file whether it applies. -/
def Decides (d : Dialect) : Prop := ∀ file content, ∃ applies, d.applies file content = .ok applies

/-- The dialect extracts nothing from any file. -/
def AlwaysFails (d : Dialect) : Prop :=
  ∀ file content, ∃ failure, d.extract file content = .error failure

/-- The dialect applies to a file. -/
def appliesTo (d : Dialect) (file content : Text) : Bool :=
  (d.applies file content).toOption.getD false

theorem Decides.applies_eq {d : Dialect} (h : d.Decides) (file content : Text) :
    d.applies file content = .ok (d.appliesTo file content) := by
  obtain ⟨applies, happlies⟩ := h file content
  rw [appliesTo, happlies]
  rfl

end Dialect

namespace Scan

variable {s : Store} {dialects before after : List Dialect} {d : Dialect} {p : Path}
  {ps : List Path} {file content root now : Text} {given : Option (List Text)}

/-- The turn of a dialect on a file. -/
structure Turn where
  dialect : Dialect
  file : Text
  content : Text

namespace Turn

/-- The endpoints that are found, none when the dialect fails. -/
def endpoints (t : Turn) : List Endpoint := (t.dialect.extract t.file t.content).toOption.getD []

/-- The warning that the dialect has failed. -/
def warning? (t : Turn) : Option Text :=
  match t.dialect.extract t.file t.content with
  | .ok _ => none
  | .error _ => some (warning t.file t.dialect.name)

end Turn

/-- The turns on a file. -/
def turnsOn (dialects : List Dialect) (file content : Text) : List Turn :=
  (dialects.filter (·.appliesTo file content)).map (⟨·, file, content⟩)

/-- The turns on the file at a path. -/
def turnsAt (s : Store) (dialects : List Dialect) (p : Path) : List Turn :=
  match contentAt s p with
  | .ok content => turnsOn dialects p.toText content
  | .error _ => []

/-- The turns on files, one file after the other. -/
def turns (s : Store) (dialects : List Dialect) (ps : List Path) : List Turn :=
  ps.flatMap (turnsAt s dialects)

/-! ## What turns give -/

theorem applicable_of_decides (h : ∀ d ∈ dialects, d.Decides) (file content : Text) :
    applicable dialects file content = .ok (dialects.filter (·.appliesTo file content)) := by
  induction dialects with
  | nil => rfl
  | cons d rest ih =>
    obtain ⟨hd, hrest⟩ := List.forall_mem_cons.mp h
    rw [applicable_cons, hd.applies_eq, ih hrest, List.filter_cons]
    rfl

theorem turns_cons : turns s dialects (p :: ps) = turnsAt s dialects p ++ turns s dialects ps :=
  List.flatMap_cons

theorem endpointsOf_turns (ds : List Dialect) (file content : Text) :
    endpointsOf (ds.map fun d ↦ ⟨d, d.extract file content⟩) =
      (ds.map (Turn.mk · file content)).flatMap Turn.endpoints := by
  rw [endpointsOf, List.flatMap_map, List.flatMap_map]
  congr 1
  funext d
  dsimp only [Turn.endpoints]
  cases d.extract file content <;> rfl

theorem warningsOf_turns (ds : List Dialect) (file content : Text) :
    warningsOf file (ds.map fun d ↦ ⟨d, d.extract file content⟩) =
      (ds.map (Turn.mk · file content)).filterMap Turn.warning? := by
  rw [warningsOf, List.filterMap_map, List.filterMap_map]
  rfl

/-- What turns give, one after the other. -/
def gatheredFrom (ts : List Turn) : Gathered :=
  ⟨ts.flatMap Turn.endpoints, ts.filterMap Turn.warning?⟩

theorem gatheredFrom_append (ts us : List Turn) :
    gatheredFrom (ts ++ us) = gatheredFrom ts ++ gatheredFrom us := by
  rw [gatheredFrom, List.flatMap_append, List.filterMap_append]
  rfl

theorem file_of_decides (h : ∀ d ∈ dialects, d.Decides) {bytes : Bytes}
    (hread : s.read p = .ok bytes) :
    Scan.file s dialects p = .ok (gatheredFrom (turnsAt s dialects p)) := by
  have hcontent : contentAt s p = .ok (sourceText bytes) := by rw [contentAt, hread]
  rw [file_of_read hread, findings, applicable_of_decides h, turnsAt, hcontent]
  dsimp only [Except.map]
  rw [endpointsOf_turns, warningsOf_turns, gatheredFrom, turnsOn]

/-- The file at a path can be read. -/
def Readable (s : Store) (p : Path) : Prop := ∃ bytes, s.read p = .ok bytes

theorem exists_fault_of_not_readable (h : ¬ Readable s p) : ∃ fault, s.read p = .error fault := by
  cases hread : s.read p with
  | ok bytes => exact absurd ⟨bytes, hread⟩ h
  | error fault => exact ⟨fault, rfl⟩

/-- **A scan gathers what its turns give.** -/
theorem files_of_readable (h : ∀ d ∈ dialects, d.Decides) (hps : ∀ p ∈ ps, Readable s p) :
    files s dialects ps = .ok (gatheredFrom (turns s dialects ps)) := by
  induction ps with
  | nil => rfl
  | cons p rest ih =>
    obtain ⟨⟨bytes, hread⟩, hrest⟩ := List.forall_mem_cons.mp hps
    rw [files, file_of_decides h hread, ih hrest, turns_cons, gatheredFrom_append]
    rfl

/-- **A file that cannot be read ends the scan.** -/
theorem files_of_not_readable (h : ∀ d ∈ dialects, d.Decides) (hp : p ∈ ps)
    (hnot : ¬ Readable s p) :
    ∃ p' ∈ ps, ∃ fault, s.read p' = .error fault ∧
      files s dialects ps = .error (.unreadable fault) := by
  induction ps with
  | nil => cases hp
  | cons first rest ih =>
    by_cases hfirst : Readable s first
    · obtain ⟨bytes, hread⟩ := hfirst
      have hrest : p ∈ rest := by
        rcases List.mem_cons.mp hp with rfl | hrest
        · exact absurd ⟨bytes, hread⟩ hnot
        · exact hrest
      obtain ⟨p', hp', fault, hfault, hfiles⟩ := ih hrest
      refine ⟨p', List.mem_cons_of_mem first hp', fault, hfault, ?_⟩
      rw [files, file_of_decides h hread, hfiles]
      rfl
    · obtain ⟨fault, hfault⟩ := exists_fault_of_not_readable hfirst
      refine ⟨first, List.mem_cons_self, fault, hfault, ?_⟩
      rw [files, Scan.file, contentAt, hfault]
      rfl

theorem files_append {qs : List Path} {found others : Gathered}
    (hfound : files s dialects ps = .ok found) (hothers : files s dialects qs = .ok others) :
    files s dialects (ps ++ qs) = .ok (found ++ others) := by
  induction ps generalizing found with
  | nil =>
    cases hfound
    exact hothers
  | cons p rest ih =>
    obtain ⟨first, found, hfirst, hrest, rfl⟩ := files_cons_eq_ok hfound
    rw [List.cons_append, files, hfirst, ih hrest]
    refine congrArg Except.ok ?_
    exact congrArg₂ Gathered.mk (List.append_assoc _ _ _).symm (List.append_assoc _ _ _).symm

/-! ## A dialect that fails -/

theorem turnsAt_append (ds es : List Dialect) (p : Path) :
    turnsAt s (ds ++ es) p = turnsAt s ds p ++ turnsAt s es p := by
  rw [turnsAt, turnsAt, turnsAt]
  cases contentAt s p with
  | error fault => rfl
  | ok content =>
    dsimp only
    rw [turnsOn, turnsOn, turnsOn, List.filter_append, List.map_append]

theorem turnsAt_insert (before after : List Dialect) (d : Dialect) (p : Path) :
    turnsAt s (before ++ d :: after) p =
      turnsAt s before p ++ (turnsAt s [d] p ++ turnsAt s after p) := by
  rw [List.append_cons, List.append_assoc, turnsAt_append, turnsAt_append]

theorem sublist_turns_insert (before after : List Dialect) (d : Dialect) (ps : List Path) :
    (turns s (before ++ after) ps).Sublist (turns s (before ++ d :: after) ps) := by
  refine List.Sublist.flatMap_right ps fun p _ ↦ ?_
  rw [turnsAt_append, turnsAt_insert]
  exact (List.sublist_append_right _ _).append_left _

/-- Apart from their order, the turns are those without the dialect, and its own. -/
theorem perm_turns_insert (before after : List Dialect) (d : Dialect) (ps : List Path) :
    (turns s (before ++ d :: after) ps).Perm (turns s (before ++ after) ps ++ turns s [d] ps) := by
  have hat (p : Path) : (turnsAt s (before ++ d :: after) p).Perm
      (turnsAt s (before ++ after) p ++ turnsAt s [d] p) := by
    rw [turnsAt_insert, turnsAt_append, List.append_assoc]
    exact List.perm_append_comm.append_left _
  exact (List.Perm.flatMap_left ps fun p _ ↦ hat p).trans (List.flatMap_append_perm ps _ _).symm

theorem dialect_of_mem_turns {t : Turn} (h : t ∈ turns s [d] ps) : t.dialect = d := by
  obtain ⟨p, -, ht⟩ := List.mem_flatMap.mp h
  rw [turnsAt] at ht
  split at ht
  · obtain ⟨d', hd', rfl⟩ := List.mem_map.mp ht
    exact List.mem_singleton.mp (List.mem_of_mem_filter hd')
  · cases ht

section AlwaysFails

variable (hd : d.AlwaysFails)
include hd

theorem endpoints_of_alwaysFails : (turns s [d] ps).flatMap Turn.endpoints = [] := by
  refine List.flatMap_eq_nil_iff.mpr fun t ht ↦ ?_
  obtain ⟨failure, hfailure⟩ := hd t.file t.content
  rw [Turn.endpoints, dialect_of_mem_turns ht, hfailure]
  rfl

/-- A dialect that fails leaves one warning for each file that it applies to. -/
theorem warnings_of_alwaysFails :
    (turns s [d] ps).filterMap Turn.warning? =
      (turns s [d] ps).map fun t ↦ warning t.file d.name := by
  refine List.filterMap_eq_map_iff_forall_eq_some.mpr fun t ht ↦ ?_
  obtain ⟨failure, hfailure⟩ := hd t.file t.content
  rw [Turn.warning?, dialect_of_mem_turns ht, hfailure]

theorem endpoints_turns_insert (before after : List Dialect) (ps : List Path) :
    (turns s (before ++ d :: after) ps).flatMap Turn.endpoints =
      (turns s (before ++ after) ps).flatMap Turn.endpoints := by
  induction ps with
  | nil => rfl
  | cons p rest ih =>
    have hnothing : (turnsAt s [d] p).flatMap Turn.endpoints = [] := by
      have hone : turns s [d] [p] = turnsAt s [d] p := List.flatMap_singleton _ _
      exact hone ▸ endpoints_of_alwaysFails hd
    rw [turns_cons, turns_cons, List.flatMap_append, List.flatMap_append, ih, turnsAt_insert,
      turnsAt_append, List.flatMap_append, List.flatMap_append, List.flatMap_append, hnothing,
      List.nil_append]

end AlwaysFails

/-! ## A scan of a directory -/

theorem scan_of_readable (hroot : Files.check root = .ok ()) (h : ∀ d ∈ dialects, d.Decides)
    (hps : ∀ p ∈ pathsOf s root given, Readable s p) :
    scan s dialects root given now = .ok
      ⟨(rootOf s root).toText, (turns s dialects (pathsOf s root given)).flatMap Turn.endpoints,
        (turns s dialects (pathsOf s root given)).filterMap Turn.warning?, now⟩ :=
  scan_eq_ok_iff.mpr ⟨hroot, _, files_of_readable h hps, rfl⟩

theorem scan_of_not_readable (h : ∀ d ∈ dialects, d.Decides) (hp : p ∈ pathsOf s root given)
    (hnot : ¬ Readable s p) :
    ∃ fault, scan s dialects root given now = .error (.unreadable fault) := by
  cases hroot : Files.check root with
  | error fault =>
    refine ⟨fault, ?_⟩
    rw [scan, gather, hroot]
    rfl
  | ok =>
    obtain ⟨-, -, fault, -, hfiles⟩ := files_of_not_readable h hp hnot
    refine ⟨fault, ?_⟩
    rw [scan, gather, hroot]
    dsimp only [Except.mapError, bind, Except.bind]
    rw [hfiles]
    rfl

theorem scan_append {first others : List Text} {c c' : Catalog}
    (hfirst : scan s dialects root (some first) now = .ok c)
    (hothers : scan s dialects root (some others) now = .ok c') :
    scan s dialects root (some (first ++ others)) now =
      .ok ⟨c.rootDir, c.endpoints ++ c'.endpoints, c.warnings ++ c'.warnings, now⟩ := by
  obtain ⟨hroot, found, hfound, rfl⟩ := scan_eq_ok_iff.mp hfirst
  obtain ⟨-, found', hfound', rfl⟩ := scan_eq_ok_iff.mp hothers
  have hpaths : pathsOf s root (some (first ++ others)) =
      pathsOf s root (some first) ++ pathsOf s root (some others) := List.map_append
  refine scan_eq_ok_iff.mpr ⟨hroot, found ++ found', ?_, rfl⟩
  rw [hpaths]
  exact files_append hfound hfound'

theorem scan_sources (hs : s.Sound) (hne : root ≠ [])
    (hleads : s.isDirectory (rootOf s root) = true → s.isDirectory (Path.ofText root) = true) :
    scan s dialects root none now =
      scan s dialects root (some ((s.sources root).map Path.toText)) now := by
  rw [scan, gather, scan, gather]
  cases hroot : Files.check root with
  | error fault => rfl
  | ok =>
    have hgiven : ∀ p ∈ s.sources root,
        givenPath s p.toText = (Path.ofText p.toText).resolve s.directory := fun p hp ↦ by
      rw [givenPath, Store.check_of_mem_sources hs hroot hp]
    have hpaths : pathsOf s root (some ((s.sources root).map Path.toText)) =
        pathsOf s root none := by
      rw [pathsOf, List.map_map]
      exact (List.map_congr_left hgiven).trans
        (Store.map_resolve_sources hs hne (straight_rootOf hs root) hleads)
    rw [hpaths]

theorem scan_insert {c : Catalog} (h : ∀ d ∈ before ++ after, d.Decides) (hdecides : d.Decides)
    (hfails : d.AlwaysFails) (hscan : scan s (before ++ after) root given now = .ok c) :
    ∃ c', scan s (before ++ d :: after) root given now = .ok c' ∧ c'.endpoints = c.endpoints ∧
      c.warnings.Sublist c'.warnings ∧
        c'.warnings.Perm
          (c.warnings ++ (turns s [d] (pathsOf s root given)).map (warning ·.file d.name)) := by
  have hall : ∀ d' ∈ before ++ d :: after, d'.Decides := by
    intro d' hd'
    rcases List.mem_append.mp hd' with hd' | hd'
    · exact h d' (List.mem_append_left after hd')
    · rcases List.mem_cons.mp hd' with rfl | hd'
      · exact hdecides
      · exact h d' (List.mem_append_right before hd')
  have hps : ∀ p ∈ pathsOf s root given, Readable s p := by
    intro p hp
    by_contra hnot
    obtain ⟨-, found, hfound, -⟩ := scan_eq_ok_iff.mp hscan
    obtain ⟨-, -, fault, -, hfault⟩ := files_of_not_readable h hp hnot
    rw [hfault] at hfound
    cases hfound
  have hroot := (scan_eq_ok_iff.mp hscan).1
  obtain rfl := Except.ok.inj ((scan_of_readable hroot h hps).symm.trans hscan)
  refine ⟨_, scan_of_readable hroot hall hps, endpoints_turns_insert hfails before after _,
    (sublist_turns_insert before after d _).filterMap _, ?_⟩
  have hperm := (perm_turns_insert (s := s) before after d
    (pathsOf s root given)).filterMap Turn.warning?
  rwa [List.filterMap_append, warnings_of_alwaysFails hfails] at hperm

private def roamingFile : Bytes := Utf8.encode "express;\nget('/one')\n"

private def roamingStore : Store :=
  ⟨.dir "w" (.file "a.js" roamingFile (.dir "d" (.file "b.js" roamingFile .empty) .empty)) .empty,
    ["w"]⟩

/-- A root may resolve to a directory that it does not lead to as it is written, and then a walk
finds sources where there are none to be given. The null character ends a scan even where all files
can be read. -/
theorem scan_roaming :
    roamingStore.sources "missing/.." = [] ∧
      (scan roamingStore Dialect.builtIn "missing/.." none "t").toOption.map
          (·.endpoints.length) = some 2 ∧
      (scan roamingStore Dialect.builtIn "missing/.."
          (some ((roamingStore.sources "missing/..").map Path.toText)) "t").toOption.map
            (·.endpoints.length) = some 0 ∧
      roamingStore.read ⟨"/", ["w", "a.js"]⟩ = .ok roamingFile ∧
      scan roamingStore Dialect.builtIn [.ofNat 0] (some ["/w/a.js"]) "t" =
        .error (.unreadable ⟨.nullCharacter, [.ofNat 0], none⟩) := by
  have hpaths : pathsOf roamingStore "missing/.." none =
      [⟨"/", ["w", "a.js"]⟩, ⟨"/", ["w", "d", "b.js"]⟩] := by decide +kernel
  refine ⟨rfl, ?_, rfl, rfl, rfl⟩
  rw [scan, gather, hpaths]
  rfl

/-- **A scan is the sum of its turns**, for dialects that decide of every file whether they apply:
* a scan of files that can be read gives the endpoints and the warnings of the turns, in order, if
  the root can be a path: it holds no null character, and every code point of it has an encoding;
* scans of two lists of files, one after the other, are a scan of both;
* a walk scans the sources below the root as if they had been given, unless the root is empty or the
  directory that it resolves to cannot be reached as it is written;
* one more dialect that always fails changes no endpoint, and adds one warning for each file that it
  applies to;
* a file that cannot be read leaves no result. -/
theorem scan_compositional (root now : Text) (hs : s.Sound)
    (hdialects : ∀ d ∈ dialects, d.Decides) :
    (Files.check root = .ok () → ∀ given, (∀ p ∈ pathsOf s root given, Readable s p) →
        scan s dialects root given now = .ok ⟨(rootOf s root).toText,
          (turns s dialects (pathsOf s root given)).flatMap Turn.endpoints,
          (turns s dialects (pathsOf s root given)).filterMap Turn.warning?, now⟩) ∧
      (∀ first others c c', scan s dialects root (some first) now = .ok c →
        scan s dialects root (some others) now = .ok c' →
          scan s dialects root (some (first ++ others)) now =
            .ok ⟨c.rootDir, c.endpoints ++ c'.endpoints, c.warnings ++ c'.warnings, now⟩) ∧
      (root ≠ [] →
        (s.isDirectory (rootOf s root) = true → s.isDirectory (Path.ofText root) = true) →
          scan s dialects root none now =
            scan s dialects root (some ((s.sources root).map Path.toText)) now) ∧
      (∀ before after d, dialects = before ++ after → d.Decides → d.AlwaysFails →
        ∀ given c, scan s dialects root given now = .ok c →
          ∃ c', scan s (before ++ d :: after) root given now = .ok c' ∧
            c'.endpoints = c.endpoints ∧ c.warnings.Sublist c'.warnings ∧
              c'.warnings.Perm (c.warnings ++
                (turns s [d] (pathsOf s root given)).map (warning ·.file d.name))) ∧
      ∀ given, ∀ p ∈ pathsOf s root given, ¬ Readable s p →
        ∃ fault, scan s dialects root given now = .error (.unreadable fault) := by
  refine ⟨fun hroot given hps ↦ scan_of_readable hroot hdialects hps,
    fun first others c c' hfirst hothers ↦ scan_append hfirst hothers,
    fun hne hleads ↦ scan_sources hs hne hleads, ?_,
    fun given p hp hnot ↦ scan_of_not_readable hdialects hp hnot⟩
  rintro before after d rfl hdecides hfails given c hscan
  exact scan_insert hdialects hdecides hfails hscan

private theorem sound_roamingStore : roamingStore.Sound where
  files := by
    have hnames : ∀ name ∈ (["w", "a.js", "d", "b.js"] : List Text), Path.IsFileName name := by
      intro name hname
      refine ⟨⟨?_, ?_, ?_⟩, ⟨?_, ?_, ?_⟩, ?_⟩ <;> revert name <;> decide
    have hlength : roamingFile.length < 0x8000000000000000 := by decide +kernel
    exact ⟨hnames _ (by decide), ⟨hnames _ (by decide), hlength, rfl, hnames _ (by decide),
      ⟨hnames _ (by decide), hlength, rfl, trivial⟩, rfl, trivial⟩, rfl, trivial⟩
  directory := rfl

private def naming : Dialect where
  name := "naming"
  applies _ content := .ok !content.isEmpty
  extract file _ := .ok [{ verb := .get, path := "/", framework := "naming", sourceFile := file }]

private def breaking : Dialect where
  name := "breaking"
  applies file _ := .ok (file = "/w/d/b.js")
  extract _ _ := .error (.other "no")

/-- A walk from a root that leads up and down again, the same with one more dialect that fails on
one file, and a list with a file that is not there. -/
theorem scan_compositional_roaming :
    scan roamingStore [naming] "d/.." none "t" =
        scan roamingStore [naming] "d/.." (some ["d/../a.js", "d/../d/b.js"]) "t" ∧
      (∃ c, scan roamingStore [breaking, naming] "d/.." none "t" = .ok c ∧
        c.endpoints.map (·.sourceFile) = ["/w/a.js", "/w/d/b.js"] ∧
        c.warnings.Perm ["Failed to parse /w/d/b.js with breaking"]) ∧
      ∃ fault, scan roamingStore [naming] "d/.." (some ["a.js", "c.js"]) "t" =
        .error (.unreadable fault) := by
  have hdecides : ∀ d ∈ [naming], d.Decides := by
    intro d hd
    rw [List.mem_singleton.mp hd]
    exact fun _ content ↦ ⟨_, rfl⟩
  have hpaths : pathsOf roamingStore "d/.." none =
      [⟨"/", ["w", "a.js"]⟩, ⟨"/", ["w", "d", "b.js"]⟩] := by decide +kernel
  have hsources : (roamingStore.sources "d/..").map Path.toText =
      (["d/../a.js", "d/../d/b.js"] : List Text) := by decide +kernel
  have hreadable : ∀ p ∈ pathsOf roamingStore "d/.." none, Readable roamingStore p := by
    rw [hpaths]
    intro p hp
    simp only [List.mem_cons, List.not_mem_nil, or_false] at hp
    rcases hp with rfl | rfl
    · exact ⟨_, rfl⟩
    · exact ⟨_, rfl⟩
  have hmissing : ¬ Readable roamingStore ⟨"/", ["w", "c.js"]⟩ := by
    rintro ⟨bytes, hread⟩
    cases hread
  obtain ⟨hgives, -, hwalk, hinsert, hends⟩ :=
    scan_compositional "d/.." "t" sound_roamingStore hdecides
  have hscan := hgives rfl none hreadable
  rw [hpaths] at hscan
  obtain ⟨c', hscan', hsame, -, hwarnings⟩ :=
    hinsert [] [naming] breaking rfl (fun _ _ ↦ ⟨_, rfl⟩) (fun _ _ ↦ ⟨_, rfl⟩) none _ hscan
  rw [hpaths] at hwarnings
  obtain ⟨fault, hfault⟩ := hends (some ["a.js", "c.js"]) ⟨"/", ["w", "c.js"]⟩
    (List.mem_cons_of_mem _ (List.mem_singleton.mpr rfl)) hmissing
  refine ⟨?_, ⟨c', hscan', ?_, hwarnings⟩, fault, hfault⟩
  · rw [hwalk (by decide) fun _ ↦ rfl, hsources]
  · rw [hsame]
    rfl

end Scan

end RouteCatalog
