import RouteCatalog.Proofs.Catalog.Interleaving

/-!
# Persisting changes one file or none

A catalog is persisted in stages: the directories are created, the earlier snapshot is read, the
text is made, and the file is replaced. Any of them may fail, for reasons of its own or of the
system (`Persists`); the program's function is one case of this (`persists_persist`).

Directories are the only trace of a run that fails, and they are those on the way to the snapshot
(`Store.CreatesOnTheWay`). A run that succeeds changes the snapshot as well, and no other file
(`persist_all_or_nothing`).
-/

namespace RouteCatalog

namespace Store

variable {s s' : Store} {p : Path}

/-- Directories on the way to a path are created, also in part. -/
abbrev CreatesOnTheWay (p : Path) : Store → Store → Prop :=
  Relation.ReflTransGen fun s s' ↦
    ∃ names, names <+: p.parts ∧ s.createDirectory ⟨p.root, names⟩ = .ok s'

theorem createsOnTheWay_ensureDirectoryAt {root : Text} {names : List Text} (below : List Text)
    {fault : Option Files.Fault} (h : s.ensureDirectoryAt root names = (s', fault)) :
    CreatesOnTheWay ⟨root, names.reverse ++ below⟩ s s' := by
  -- The path may go on below the directory, so that the directories above it are on the same way.
  induction names generalizing s s' fault below with
  | nil =>
    cases h
    exact .refl
  | cons name above ih =>
    have hway : (name :: above).reverse <+: (name :: above).reverse ++ below :=
      List.prefix_append _ _
    have hsame : (name :: above).reverse ++ below = above.reverse ++ ([name] ++ below) := by simp
    rw [ensureDirectoryAt] at h
    split at h
    · next created hcreate =>
      cases h
      exact .single ⟨_, hway, hcreate⟩
    · split at h
      · next habove =>
        cases h
        rw [hsame]
        exact ih _ habove
      · next made habove =>
        have hmade : CreatesOnTheWay ⟨root, (name :: above).reverse ++ below⟩ s made := by
          rw [hsame]
          exact ih _ habove
        split at h
        · next created hcreate =>
          cases h
          exact hmade.tail ⟨_, hway, hcreate⟩
        · cases h
          exact hmade
    · cases h
      exact .refl

theorem createsOnTheWay_ensureDirectory {fault : Option Files.Fault}
    (h : s.ensureDirectory p = (s', fault)) : CreatesOnTheWay p s s' := by
  have hway := createsOnTheWay_ensureDirectoryAt [] h
  rwa [List.reverse_reverse, List.append_nil] at hway

theorem locate_of_createDirectory (h : s.createDirectory p = .ok s') {l : List Text}
    (hnew : s.node? l ≠ s'.node? l) : s.locate p = .ok l := by
  rw [createDirectory] at h
  cases hlocate : s.locate p with
  | error cause =>
    rw [hlocate] at h
    cases h
  | ok location =>
    rw [hlocate] at h
    simp only [bind, Except.bind] at h
    split at h
    · cases h
    · next hat =>
      cases h
      have hfree : s.node? location = none := by
        rw [node?, Tree.node?, hat]
        rfl
      by_contra hne
      apply hnew
      by_cases hdir : s.node? location.dropLast = some .dir
      · rw [node?_setAt_of_not_dir (e := .dir .empty) (Tree.node?_cons .empty) hdir
          (by rw [hfree]; simp), if_neg]
        exact fun heq ↦ hne (congrArg _ heq.symm)
      · rw [Tree.setAt_of_not_dir hdir]

/-- What creating directories on the way to a path leaves. -/
structure OnlyDirectories (p : Path) (s s' : Store) : Prop where
  directory : s'.directory = s.directory
  /-- Every file is as it was, and there is no new one. -/
  file_iff : ∀ l content, s'.node? l = some (.file content) ↔ s.node? l = some (.file content)
  kept : ∀ l, s.node? l = some .dir → s'.node? l = some .dir
  /-- A new directory is on the way. -/
  added : ∀ l, s'.node? l = some .dir →
    s.node? l = some .dir ∨ ∃ names, names <+: p.parts ∧ s'.locate ⟨p.root, names⟩ = .ok l

theorem onlyDirectories_of_creates (h : CreatesOnTheWay p s s') : OnlyDirectories p s s' := by
  induction h with
  | refl => exact ⟨rfl, fun _ _ ↦ Iff.rfl, fun _ ↦ id, fun _ ↦ .inl⟩
  | @tail made after _ hstep ih =>
    obtain ⟨names, hway, hcreate⟩ := hstep
    have hgrows := grows_createDirectory hcreate
    have hlocate {q : Path} {l : List Text} (hq : made.locate q = .ok l) :
        after.locate q = .ok l := locate_of_dirs (fun _ hdir ↦ hgrows.kept hdir) hgrows.directory hq
    refine ⟨hgrows.directory.trans ih.directory, fun l content ↦ ?_, fun l hdir ↦ ?_,
      fun l hdir ↦ ?_⟩
    · rw [hgrows.file_iff, ih.file_iff]
    · exact hgrows.kept (ih.kept l hdir)
    · by_cases hsame : made.node? l = after.node? l
      · rcases ih.added l (hsame.trans hdir) with hold | ⟨names', hway', hnew⟩
        · exact .inl hold
        · exact .inr ⟨names', hway', hlocate hnew⟩
      · exact .inr ⟨names, hway, hlocate (locate_of_createDirectory hcreate hsame)⟩

theorem OnlyDirectories.of_same {made : Store} (h : OnlyDirectories p s made)
    (hsame : SameDirectories made s') (hnode : ∀ m, s'.node? m = made.node? m) :
    OnlyDirectories p s s' where
  directory := hsame.directory.trans h.directory
  file_iff l content := by rw [hnode, h.file_iff]
  kept l hdir := by rw [hnode, h.kept l hdir]
  added l hdir := by
    rw [hnode] at hdir
    rcases h.added l hdir with hold | ⟨names, hway, hlocate⟩
    · exact .inl hold
    · exact .inr ⟨names, hway, hsame.locate_iff.mpr hlocate⟩

end Store

namespace Snapshot

variable {s s' made : Store} {c : Catalog} {root outputFile : Text} {incremental : Bool} {p : Path}
  {content : Bytes} {w : Written}

/-! ## One replacement -/

theorem same_of_failed (h : Steps p content (s, .idle) (s', .failed)) :
    Store.SameDirectories s s' ∧ ∀ m, s'.node? m = s.node? m := by
  obtain ⟨t, hreaches, hended, -⟩ :=
    Traffic.reaches_of_steps (fun _ ↦ content) () h (t := Traffic.start s) rfl
  obtain ⟨rfl, hprogress⟩ := Prod.mk.inj hended
  have hconsistent := Traffic.consistent_of_reaches hreaches
  have hnone : t.replaced = [] := by
    refine List.eq_nil_iff_forall_not_mem.mpr fun i hi ↦ ?_
    rw [hconsistent.finished i, hprogress] at hi
    cases hi
  refine ⟨hconsistent.same, fun m ↦ ?_⟩
  by_cases hm : s.locate p = .ok m
  · have htarget := hconsistent.target m hm
    rwa [hnone] at htarget
  · exact hconsistent.eq_of_ended (fun _ ↦ .inr (.inr hprogress)) hm

theorem replaced_of_done (h : Steps p content (s, .idle) (s', .done)) :
    Store.SameDirectories s s' ∧ ∃ destination, s'.locate p = .ok destination ∧
      s'.node? destination = some (.file content) ∧
        ∀ m ≠ destination, s'.node? m = s.node? m := by
  obtain ⟨t, hreaches, hended, -⟩ :=
    Traffic.reaches_of_steps (fun _ ↦ content) () h (t := Traffic.start s) rfl
  obtain ⟨rfl, hprogress⟩ := Prod.mk.inj hended
  have hconsistent := Traffic.consistent_of_reaches hreaches
  obtain ⟨rest, hreplaced⟩ : ∃ rest, t.replaced = () :: rest := by
    obtain ⟨i, rest, hreplaced⟩ := List.exists_cons_of_ne_nil
      (List.ne_nil_of_mem ((hconsistent.finished ()).mpr hprogress))
    exact ⟨rest, hreplaced⟩
  obtain ⟨destination, hdestination⟩ :=
    hconsistent.placed (by rw [hreplaced]; exact List.cons_ne_nil _ _)
  have htarget := hconsistent.target destination hdestination
  rw [hreplaced] at htarget
  refine ⟨hconsistent.same, destination, hconsistent.same.locate_iff.mpr hdestination, htarget,
    fun m hm ↦ hconsistent.eq_of_ended (fun _ ↦ .inr (.inl hprogress)) fun heq ↦ hm ?_⟩
  exact Except.ok.inj (heq.symm.trans hdestination)

/-! ## Persisting -/

/-- What persisting a catalog may do, where any stage may fail: the store that results, and what was
persisted unless the run fails. -/
inductive Persists (s : Store) (c : Catalog) (root outputFile : Text) (incremental : Bool) :
    Store → Option Written → Prop
  /-- The run fails before it writes: while it creates directories, reads the earlier snapshot or
  makes the text. -/
  | stopped {made : Store}
    (hmade : s.CreatesOnTheWay (pathFor root outputFile).parent made) :
    Persists s c root outputFile incremental made none
  | failed {made s' : Store}
    (hmade : s.CreatesOnTheWay (pathFor root outputFile).parent made)
    (hsteps : Steps (pathFor root outputFile) (Utf8.encode c.text) (made, .idle) (s', .failed)) :
    Persists s c root outputFile incremental s' none
  | succeeded {made s' : Store} {unchanged : Nat}
    (hmade : s.CreatesOnTheWay (pathFor root outputFile).parent made)
    (hcount : (if incremental then countUnchanged made (pathFor root outputFile) c.endpoints
      else .ok 0) = .ok unchanged)
    (hsteps : Steps (pathFor root outputFile) (Utf8.encode c.text) (made, .idle) (s', .done)) :
    Persists s c root outputFile incremental s'
      (some ⟨pathFor root outputFile, c.endpoints.length, unchanged⟩)

theorem persists_persist (s : Store) (c : Catalog) (root outputFile : Text) (incremental : Bool)
    (tag : Text) :
    Persists s c root outputFile incremental (persist s c root outputFile incremental tag).1
      (persist s c root outputFile incremental tag).2.toOption := by
  cases hmade : s.ensureDirectory (pathFor root outputFile).parent with
  | mk made fault =>
    have hway := Store.createsOnTheWay_ensureDirectory hmade
    cases fault with
    | some fault =>
      rw [persist_of_fault hmade]
      exact .stopped hway
    | none =>
      rw [persist_of_made hmade]
      cases hcount : if incremental then
          countUnchanged made (pathFor root outputFile) c.endpoints else .ok 0 with
      | error fault => exact .stopped hway
      | ok unchanged =>
        cases hwrite : c.write with
        | error why => exact .stopped hway
        | ok text =>
          obtain ⟨-, rfl⟩ := Catalog.write_eq_ok_iff.mp hwrite
          have hsteps := steps_replaceWhole made (pathFor root outputFile) tag (Utf8.encode c.text)
          dsimp only
          cases hreplace : replaceWhole made (pathFor root outputFile) tag (Utf8.encode c.text) with
          | mk replaced fault =>
            rw [hreplace] at hsteps
            cases fault with
            | some fault => exact .failed hway hsteps
            | none => exact .succeeded hway hcount hsteps

theorem countUnchanged_le {endpoints : List Endpoint} {n : Nat}
    (h : countUnchanged s p endpoints = .ok n) : n ≤ endpoints.length := by
  rw [countUnchanged] at h
  cases hread : read s p with
  | error container =>
    rw [hread] at h
    cases h
  | ok loaded? =>
    rw [hread] at h
    cases loaded? with
    | none =>
      cases h
      exact Nat.zero_le _
    | some loaded =>
      obtain ⟨known, hknown⟩ := exists_mapM_entry_of_read hread
      dsimp only at h
      rw [Reconcile.countIn_of_mapM hknown] at h
      cases hcount : Reconcile.countAmong known endpoints with
      | error why =>
        rw [hcount] at h
        cases h
      | ok m =>
        rw [hcount] at h
        cases h
        obtain ⟨-, rfl⟩ := Reconcile.countAmong_eq_ok_iff.mp hcount
        exact List.countP_le_length

/-- What a run that succeeds changes. -/
structure Stored (s s' : Store) (c : Catalog) (root outputFile : Text) (w : Written) : Prop where
  /-- The snapshot is where the output file is, seen from the root. -/
  outputPath : w.outputPath = pathFor root outputFile
  /-- The text of the catalog stands at the path, and every other file is as it was. -/
  file : ∃ destination, s'.locate w.outputPath = .ok destination ∧
    s'.node? destination = some (.file (Utf8.encode c.text)) ∧
      ∀ l ≠ destination, ∀ content,
        s'.node? l = some (.file content) ↔ s.node? l = some (.file content)
  written : w.written = c.endpoints.length
  unchanged_le : w.unchanged ≤ w.written

theorem onlyDirectories_of_persists (h : Persists s c root outputFile incremental s' none) :
    s.OnlyDirectories (pathFor root outputFile).parent s' := by
  cases h with
  | stopped hmade => exact Store.onlyDirectories_of_creates hmade
  | @failed made _ hmade hsteps =>
    obtain ⟨hsame, hnode⟩ := same_of_failed hsteps
    exact (Store.onlyDirectories_of_creates hmade).of_same hsame hnode

theorem stored_of_persists (h : Persists s c root outputFile incremental s' (some w)) :
    Stored s s' c root outputFile w := by
  cases h with
  | @succeeded made _ unchanged hmade hcount hsteps =>
    obtain ⟨-, destination, hlocate, hstored, hothers⟩ := replaced_of_done hsteps
    refine ⟨rfl, ⟨destination, hlocate, hstored, fun l hl content ↦ ?_⟩, rfl, ?_⟩
    · rw [hothers l hl, (Store.onlyDirectories_of_creates hmade).file_iff]
    · dsimp only
      split at hcount
      · exact countUnchanged_le hcount
      · cases hcount
        exact Nat.zero_le _

/-- **A catalog is persisted as a whole or not at all.** The program takes its stages in this order;
whichever of them fails, and for whatever reason, all that is new are directories on the way to the
snapshot. When none fails, the snapshot is the whole text of the catalog, and no other file has
changed. -/
theorem persist_all_or_nothing (s : Store) (c : Catalog) (root outputFile : Text)
    (incremental : Bool) :
    (∀ tag, Persists s c root outputFile incremental
        (persist s c root outputFile incremental tag).1
        (persist s c root outputFile incremental tag).2.toOption) ∧
      (∀ s', Persists s c root outputFile incremental s' none →
        s.OnlyDirectories (pathFor root outputFile).parent s') ∧
      ∀ s' w, Persists s c root outputFile incremental s' (some w) →
        Stored s s' c root outputFile w :=
  ⟨persists_persist s c root outputFile incremental, fun _ ↦ onlyDirectories_of_persists,
    fun _ _ ↦ stored_of_persists⟩

private def shelfStore : Store := ⟨.dir "r" (.file "a" [1, 2] (.dir "o" .empty .empty)) .empty, []⟩

private def extendedStore : Store :=
  ⟨.dir "r" (.file "a" [1, 2] (.dir "o" .empty (.dir "new" .empty .empty))) .empty, []⟩

private def shelfCatalog : Catalog := ⟨"/r", [], ["w"], "t"⟩

/-- Over a file the text is stored; over a directory it is not, nor where the system gives up after
one byte, and there a directory remains. -/
theorem persist_all_or_nothing_shelf :
    (∃ s' w, persist shelfStore shelfCatalog "/r" "a" false "1" = (s', .ok w) ∧
        Stored shelfStore s' shelfCatalog "/r" "a" w) ∧
      (∃ s', persist shelfStore shelfCatalog "/r" "o" false "1" =
          (s', .error (.unwritable ⟨.isDirectory, "/r/.o.1.tmp", some "/r/o"⟩)) ∧
        shelfStore.OnlyDirectories ⟨"/", ["r"]⟩ s') ∧
      ∃ s', Persists shelfStore shelfCatalog "/r" "new/s" true s' none ∧
        s'.node? ["r", "new"] = some .dir ∧ shelfStore.OnlyDirectories ⟨"/", ["r", "new"]⟩ s' := by
  obtain ⟨hruns, -, hstored⟩ := persist_all_or_nothing shelfStore shelfCatalog "/r" "a" false
  obtain ⟨hblocked, honly, -⟩ := persist_all_or_nothing shelfStore shelfCatalog "/r" "o" false
  obtain ⟨-, hway, -⟩ := persist_all_or_nothing shelfStore shelfCatalog "/r" "new/s" true
  refine ⟨⟨_, _, rfl, hstored _ _ (hruns "1")⟩, ⟨_, rfl, honly _ (hblocked "1")⟩, ?_⟩
  have hmade : shelfStore.CreatesOnTheWay ⟨"/", ["r", "new"]⟩ extendedStore :=
    .single ⟨["r", "new"], List.prefix_refl _, rfl⟩
  have hcreated : Steps (pathFor "/r" "new/s") (Utf8.encode shelfCatalog.text)
      (extendedStore, .idle) _ := .single (.create "1" rfl)
  have hwritten := hcreated.tail (.write 1 rfl)
  have hended := (hwritten.tail (.fail _ _ _)).tail (.discard rfl)
  have hrun : Persists shelfStore shelfCatalog "/r" "new/s" true extendedStore none :=
    .failed hmade hended
  exact ⟨extendedStore, hrun, rfl, hway _ hrun⟩

end Snapshot

end RouteCatalog
