import RouteCatalog.Catalog.Snapshot
import RouteCatalog.Proofs.Files.Store

/-!
# Replacing a file as a whole

A file is replaced by way of a temporary file beside it. When that succeeds, the path leads where it
led before, the new contents stand there, and nothing else has changed
(`replaceWhole_of_replaceable`); when it fails, nothing has changed at all (`replaceWhole_fault`).
-/

namespace RouteCatalog.Snapshot

open Files

variable {s s' : Store} {p : Path} {tag : Text} {content : Bytes} {source destination : List Text}

/-- What it takes to replace a file: the temporary file has a free place in a directory, and the
path has a name and leads to no directory. -/
structure Replaceable (s : Store) (p : Path) (tag : Text) (source destination : List Text) :
    Prop where
  /-- Where the temporary file goes. -/
  beside : s.locate (temporary s p tag) = .ok source
  free : s.node? source = none
  leads : s.locate p = .ok destination
  replaced : s.node? destination ≠ some .dir
  named : p.parts ≠ []
  proper : p.name ≠ ".."

/-- The contents stand at the destination, and nothing else has changed. -/
structure Replaced (s s' : Store) (destination : List Text) (content : Bytes) : Prop where
  directory : s'.directory = s.directory
  distinct : s.files.Distinct → s'.files.Distinct
  /-- What stands at the destination, and elsewhere. -/
  node? : ∀ m, s'.node? m = if m = destination then some (.file content) else s.node? m

namespace Replaced

variable (h : Replaced s s' destination content)
include h

theorem stored : s'.node? destination = some (.file content) := by
  rw [h.node?, if_pos rfl]

theorem dir_iff (hnot : s.node? destination ≠ some .dir) (m : List Text) :
    s'.node? m = some .dir ↔ s.node? m = some .dir := by
  rw [h.node?]
  split
  · next heq =>
    rw [heq]
    constructor
    · intro hdir
      cases hdir
    · exact fun hdir ↦ absurd hdir hnot
  · rfl

theorem file_iff {m : List Text} (hne : m ≠ destination) {old : Bytes} :
    s'.node? m = some (.file old) ↔ s.node? m = some (.file old) := by
  rw [h.node?, if_neg hne]

theorem sameDirectories (hnot : s.node? destination ≠ some .dir) : Store.SameDirectories s s' :=
  ⟨h.directory, h.dir_iff hnot⟩

theorem locate_iff (hnot : s.node? destination ≠ some .dir) {q : Path} {l : List Text} :
    s'.locate q = .ok l ↔ s.locate q = .ok l := (h.sameDirectories hnot).locate_iff

end Replaced

/-! ## Files in free places -/

/-- The store with a file at a location. -/
def withFile (s : Store) (l : List Text) (content : Bytes) : Store :=
  { s with files := s.files.setAt (.file content) l }

theorem replaced_withFile {l : List Text} (hdir : s.node? l.dropLast = some .dir)
    (hnot : s.node? l ≠ some .dir) (content : Bytes) :
    Replaced s (withFile s l content) l content where
  directory := rfl
  distinct hdistinct := hdistinct.setAt (fun _ heq ↦ by cases heq) l
  node? := Store.node?_setAt_of_not_dir (fun _ _ ↦ rfl) hdir hnot

section Moved

variable (hfile : s.node? source = some (.file content))
  (hdir : s.node? destination.dropLast = some .dir) (hnot : s.node? destination ≠ some .dir)
  (hne : source ≠ destination)
include hfile hdir hnot hne

private theorem stored_source :
    (withFile s destination content).node? source = some (.file content) := by
  rw [(replaced_withFile hdir hnot content).file_iff hne, hfile]

/-- A file that is moved stands at its destination and not where it was. -/
theorem node?_moved (m : List Text) :
    ((withFile s destination content).withoutFile source).node? m =
      if m = destination then some (.file content) else if m = source then none
        else s.node? m := by
  refine (Store.node?_withoutFile (stored_source hfile hdir hnot hne) m).trans ?_
  rw [(replaced_withFile hdir hnot content).node?]
  by_cases hm : m = source
  · rw [if_pos hm, if_neg (hm ▸ hne), if_pos hm]
  · rw [if_neg hm]
    split <;> rfl

theorem sameDirectories_moved :
    Store.SameDirectories s ((withFile s destination content).withoutFile source) :=
  ((replaced_withFile hdir hnot content).sameDirectories hnot).trans
    (Store.sameDirectories_withoutFile (stored_source hfile hdir hnot hne))

end Moved

theorem createFile_eq_ok_iff {q : Path} :
    s.createFile q = .ok s' ↔
      ∃ l, s.locate q = .ok l ∧ s.node? l = none ∧ s' = withFile s l [] := by
  rw [Store.createFile]
  cases s.locate q with
  | error cause => simp
  | ok l =>
    simp only [Except.ok.injEq, exists_eq_left']
    rw [Store.node?, Tree.node?]
    cases s.files.at? l with
    | none => simp [withFile, eq_comm]
    | some e => simp

theorem write_eq_ok_iff {q : Path} :
    s.write q content = .ok s' ↔
      ∃ l, s.locate q = .ok l ∧ s.node? l ≠ some .dir ∧ s' = withFile s l content := by
  rw [Store.write]
  cases s.locate q with
  | error cause => simp
  | ok l =>
    simp only [Except.ok.injEq, exists_eq_left']
    rw [Store.node?, Tree.node?]
    cases s.files.at? l with
    | none => simp [withFile, eq_comm]
    | some e => cases e <;> simp [withFile, Entry.node, eq_comm]

/-- A file is moved to any path that has a name and leads to no directory. -/
theorem replace_eq_ok_iff {q : Path} (hsource : s.locate q = .ok source)
    (hat : s.files.at? source = some (.file content)) :
    s.replace q p = .ok s' ↔
      ∃ destination, s.locate p = .ok destination ∧ s.node? destination ≠ some .dir ∧
        p.parts ≠ [] ∧ p.name ≠ ".." ∧
          s' = if source = destination then s
            else { s with
              files := (s.files.setAt (.file content) destination).eraseAt source } := by
  rw [Store.replace, hsource]
  cases s.locate p with
  | error cause => simp
  | ok destination =>
    simp only [Except.ok.injEq, exists_eq_left']
    by_cases hname : (p.parts.isEmpty || decide (p.name = Text.ofString "..")) = true
    · rw [if_pos hname]
      simp only [Bool.or_eq_true, List.isEmpty_iff, decide_eq_true_eq] at hname
      rcases hname with h | h <;> simp [h]
    · rw [if_neg hname, hat, Store.node?, Tree.node?]
      simp only [Bool.or_eq_true, List.isEmpty_iff, decide_eq_true_eq, not_or] at hname
      have hname' := hname.2
      cases s.files.at? destination with
      | none => by_cases h : source = destination <;> simp [h, hname.1, hname', eq_comm]
      | some e =>
        cases e with
        | file old =>
          by_cases h : source = destination <;> simp [h, hname.1, hname', Entry.node, eq_comm]
        | dir inside => simp [Entry.node]

/-! ## Replacing -/

theorem parts_temporary_ne_nil (s : Store) (p : Path) (tag : Text) :
    (temporary s p tag).parts ≠ [] := by
  rw [temporary]
  exact List.append_ne_nil_of_right_ne_nil _ (List.cons_ne_nil _ _)

section Beside

variable (hbeside : s.locate (temporary s p tag) = .ok source) (hfree : s.node? source = none)

include hbeside in
theorem dir_dropLast_source : s.node? source.dropLast = some .dir :=
  Store.dir_dropLast_of_locate (parts_temporary_ne_nil s p tag) hbeside

include hfree in
private theorem source_not_dir : s.node? source ≠ some .dir := by
  rw [hfree]
  simp

include hbeside hfree in
private theorem replaced_source (content : Bytes) :
    Replaced s (withFile s source content) source content :=
  replaced_withFile (dir_dropLast_source hbeside) (source_not_dir hfree) content

include hbeside hfree in
private theorem locate_withSource {q : Path} {m : List Text} :
    (withFile s source content).locate q = .ok m ↔ s.locate q = .ok m :=
  (replaced_source hbeside hfree content).locate_iff (source_not_dir hfree)

include hbeside hfree in
private theorem at?_source :
    (withFile s source content).files.at? source = some (.file content) :=
  Store.node?_eq_file_iff.mp (replaced_source hbeside hfree content).stored

include hbeside hfree in
private theorem appendTo_source :
    (withFile s source []).appendTo (temporary s p tag) content =
      .ok (withFile s source content) := by
  have hat : (withFile s source []).files.at? source = some (.file []) := at?_source hbeside hfree
  rw [Store.appendTo, (locate_withSource hbeside hfree).mpr hbeside]
  dsimp only
  rw [hat]
  dsimp only
  rw [List.nil_append, withFile, Tree.setAt_setAt]
  rfl

include hbeside hfree in
/-- Once the temporary file has its place, the outcome is that of the last step. -/
private theorem replaceWhole_eq :
    replaceWhole s p tag content =
      match (withFile s source content).replace (temporary s p tag) p with
      | .error fault => (s, some fault)
      | .ok replaced => (replaced, none) := by
  have hcreate : s.createFile (temporary s p tag) = .ok (withFile s source []) :=
    createFile_eq_ok_iff.mpr ⟨source, hbeside, hfree, rfl⟩
  have hat : (withFile s source content).files.at? source = some (.file content) :=
    at?_source hbeside hfree
  -- A last step that fails is undone by removing the temporary file.
  have hremove : (withFile s source content).remove (temporary s p tag) = .ok s := by
    rw [Store.remove, (locate_withSource hbeside hfree).mpr hbeside]
    dsimp only
    rw [hat]
    dsimp only
    rw [withFile, Tree.eraseAt_setAt hfree]
  rw [replaceWhole, hcreate]
  dsimp only
  rw [appendTo_source hbeside hfree]
  dsimp only
  cases (withFile s source content).replace (temporary s p tag) p with
  | error fault => rw [hremove]; rfl
  | ok replaced => rfl

/-- The store after the last step. -/
private def moved (s : Store) (source destination : List Text) (content : Bytes) : Store :=
  if source = destination then withFile s source content
  else { s with files :=
    ((withFile s source content).files.setAt (.file content) destination).eraseAt source }

include hbeside hfree in
private theorem replace_source_eq_ok_iff :
    (withFile s source content).replace (temporary s p tag) p = .ok s' ↔
      ∃ destination, Replaceable s p tag source destination ∧
        s' = moved s source destination content := by
  have hdirs (m : List Text) : (withFile s source content).node? m = some .dir ↔
      s.node? m = some .dir :=
    (replaced_source hbeside hfree content).dir_iff (source_not_dir hfree) m
  rw [replace_eq_ok_iff ((locate_withSource hbeside hfree).mpr hbeside)
    (at?_source hbeside hfree)]
  refine exists_congr fun destination ↦ ?_
  rw [locate_withSource hbeside hfree, Ne, hdirs]
  constructor
  · rintro ⟨hleads, hreplaced, hnamed, hproper, heq⟩
    exact ⟨⟨hbeside, hfree, hleads, hreplaced, hnamed, hproper⟩, heq⟩
  · rintro ⟨h, heq⟩
    exact ⟨h.leads, h.replaced, h.named, h.proper, heq⟩

end Beside

/-- After the last step the contents stand at the destination, and nothing else has changed. -/
private theorem replaced_moved (h : Replaceable s p tag source destination) (content : Bytes) :
    Replaced s (moved s source destination content) destination content := by
  have hnot := source_not_dir h.free
  have hdir := dir_dropLast_source h.beside
  have hwritten := replaced_withFile hdir hnot content
  rw [moved]
  split
  · next heq => exact heq ▸ hwritten
  · next hdiffer =>
    have hnot' : (withFile s source content).node? destination ≠ some .dir :=
      mt (hwritten.dir_iff hnot _).mp h.replaced
    have hdir' : (withFile s source content).node? destination.dropLast = some .dir :=
      (hwritten.dir_iff hnot _).mpr (Store.dir_dropLast_of_locate h.named h.leads)
    have hmoved := replaced_withFile hdir' hnot' content
    refine ⟨rfl, fun hdistinct ↦ (hmoved.distinct (hwritten.distinct hdistinct)).eraseAt source,
      fun m ↦ (node?_moved hwritten.stored hdir' hnot' hdiffer m).trans ?_⟩
    rw [hwritten.node?]
    by_cases hm : m = source
    · rw [if_pos hm, hm, h.free]
    · rw [if_neg hm, if_neg hm]

/-- **Replacing succeeds when it can, and changes one file.** -/
theorem replaceWhole_of_replaceable (h : Replaceable s p tag source destination)
    (content : Bytes) :
    ∃ s', replaceWhole s p tag content = (s', none) ∧ Replaced s s' destination content := by
  refine ⟨moved s source destination content, ?_, replaced_moved h content⟩
  rw [replaceWhole_eq h.beside h.free,
    (replace_source_eq_ok_iff h.beside h.free).mpr ⟨destination, h, rfl⟩]

theorem replaced_of_replaceWhole (h : replaceWhole s p tag content = (s', none)) :
    ∃ source destination, Replaceable s p tag source destination ∧
      Replaced s s' destination content := by
  cases hcreate : s.createFile (temporary s p tag) with
  | error fault =>
    rw [replaceWhole, hcreate] at h
    cases h
  | ok created =>
    obtain ⟨source, hbeside, hfree, -⟩ := createFile_eq_ok_iff.mp hcreate
    have hlast := h
    rw [replaceWhole_eq hbeside hfree] at hlast
    split at hlast
    · cases hlast
    · next replaced hreplace =>
      obtain ⟨destination, hready, -⟩ := (replace_source_eq_ok_iff hbeside hfree).mp hreplace
      obtain ⟨s₁, hwhole, hreplaced⟩ := replaceWhole_of_replaceable hready content
      obtain rfl : s' = s₁ := (Prod.mk.inj (h.symm.trans hwhole)).1
      exact ⟨source, destination, hready, hreplaced⟩

/-- **A replacement that fails leaves the store as it was.** -/
theorem replaceWhole_fault {fault : Files.Fault}
    (h : replaceWhole s p tag content = (s', some fault)) : s' = s := by
  cases hcreate : s.createFile (temporary s p tag) with
  | error fault =>
    rw [replaceWhole, hcreate] at h
    exact (Prod.mk.inj h).1.symm
  | ok created =>
    obtain ⟨source, hbeside, hfree, -⟩ := createFile_eq_ok_iff.mp hcreate
    rw [replaceWhole_eq hbeside hfree] at h
    split at h
    · exact (Prod.mk.inj h).1.symm
    · cases h

end RouteCatalog.Snapshot
