import RouteCatalog.Proofs.Catalog.Replace
import RouteCatalog.Proofs.Files.Collect
import RouteCatalog.Settings.Save

/-!
# Saving settings

Settings whose root is a directory are saved beside what is there: the settings file stands where it
is looked for, and saving the same settings once more leaves the store as it is (`saved_of_save`).
Nothing stands in the way unless there is a file in the place of the directory of the settings file,
or a directory in the place of the file (`exists_save`).
-/

namespace RouteCatalog.Settings

open Snapshot

variable {s s' : Store} {r p : Path} {root : Option Text} {settings : Settings}

/-! ## Roots -/

/-- The root of which the settings are loaded. -/
def rootFor (s : Store) (root : Option Text) : Path := (explicitRoot s root).getD (workingPath s)

/-- An absolute path to a directory, of names that a system accepts. -/
structure IsDirectoryRoot (s : Store) (r : Path) : Prop where
  root : r.root = "/"
  isFileName : ∀ name ∈ r.parts, Path.IsFileName name
  dir : s.node? r.parts = some .dir

theorem isDirectoryRoot_rootFor (hs : s.Sound)
    (h : s.isDirectory (Path.ofText (root.getD [])) = true) :
    IsDirectoryRoot s (rootFor s root) := by
  have hsound {r : Path} (hroot : r.root = "/") (hdir : s.node? r.parts = some .dir) :
      IsDirectoryRoot s r := ⟨hroot, hs.isFileName hdir, hdir⟩
  rcases root with _ | _ | ⟨c, t⟩
  · exact hsound rfl hs.directory
  · exact hsound rfl hs.directory
  · obtain ⟨inside, hentry⟩ := Store.isDirectory_iff.mp h
    obtain ⟨l, hlocate, hat⟩ := Store.entry_eq_ok_iff.mp hentry
    have hdir : s.node? l = some .dir := by
      rw [Store.node?, Tree.node?, hat]
      rfl
    have hnames : ∀ name ∈ s.directory, name ≠ ".." := fun name hname ↦
      (hs.isFileName hs.directory name hname).leadsDown.ne_points
    have hl := Store.eq_resolve_of_locate hnames hlocate
    exact hsound rfl (hl ▸ hdir)

/-- The name of the directory of the settings file. -/
def directoryName : Text := ".zeus-core"

/-- The name of the settings file. -/
def fileName : Text := "config.yaml"

theorem ofText_file : Path.ofText file = ⟨[], [directoryName, fileName]⟩ := by decide

namespace IsDirectoryRoot

variable (h : IsDirectoryRoot s r)
include h

theorem ofText_toText : Path.ofText r.toText = r :=
  Path.ofText_toText (.inr (.inl h.root)) fun name hname ↦ (h.isFileName name hname).isPart

theorem fileIn_eq : fileIn r = ⟨"/", r.parts ++ [directoryName, fileName]⟩ := by
  obtain ⟨root, parts⟩ := r
  obtain rfl : root = "/" := h.root
  rw [fileIn, ofText_file]
  rfl

theorem configPath_eq (hsettings : settings .rootDir = .str r.toText) :
    settings.configPath = .ok (fileIn r) := by
  rw [configPath, rootPath, hsettings]
  dsimp only
  rw [h.ofText_toText]
  rfl

theorem isAbsolute : (fileIn r).isAbsolute = true := by
  rw [h.fileIn_eq]
  rfl

theorem parts_parent : (fileIn r).parent.parts = r.parts ++ [directoryName] := by
  rw [h.fileIn_eq, Path.parent]
  exact List.dropLast_append_cons ..

theorem parts_eq : (fileIn r).parts = (fileIn r).parent.parts ++ [fileName] := by
  rw [h.parts_parent, h.fileIn_eq, List.append_assoc]
  rfl

theorem leadsDown : ∀ name ∈ (fileIn r).parts, Store.LeadsDown name := by
  have hown : ∀ name ∈ [directoryName, fileName], Store.LeadsDown name := by
    intro name hname
    refine ⟨?_, ?_, ?_⟩ <;> revert name <;> decide
  rw [h.fileIn_eq]
  intro name hname
  rcases List.mem_append.mp hname with hname | hname
  · exact (h.isFileName name hname).leadsDown
  · exact hown name hname

theorem leadsDown_parent : ∀ name ∈ (fileIn r).parent.parts, Store.LeadsDown name :=
  fun name hname ↦ h.leadsDown name (List.dropLast_subset _ hname)

end IsDirectoryRoot

/-! ## Saving -/

/-- What holds after settings were saved in a file. -/
structure Saved (settings : Settings) (s s' : Store) (p : Path) : Prop where
  directory : s'.directory = s.directory
  read : s'.read p = .ok (Utf8.encode settings.text)
  /-- Saving the settings once more changes nothing. -/
  again : settings.save s' = (s', .ok p)

section

variable (h : IsDirectoryRoot s r) (hsettings : settings .rootDir = .str r.toText)
include h hsettings

theorem save_of_write {s₁ : Store} (hensure : s.ensureDirectory (fileIn r).parent = (s₁, none))
    (hwrite : s₁.write (fileIn r) (Utf8.encode settings.text) = .ok s') :
    settings.save s = (s', .ok (fileIn r)) := by
  rw [save, h.configPath_eq hsettings]
  dsimp only
  rw [hensure]
  dsimp only
  rw [hwrite]

theorem exists_of_save (hsave : settings.save s = (s', .ok p)) :
    p = fileIn r ∧ ∃ s₁, s.ensureDirectory p.parent = (s₁, none) ∧
      s₁.write p (Utf8.encode settings.text) = .ok s' := by
  rw [save, h.configPath_eq hsettings] at hsave
  dsimp only at hsave
  split at hsave
  · cases hsave
  · next s₁ hensure =>
    split at hsave
    · next hwrite =>
      cases hsave
      exact ⟨rfl, s₁, hensure, hwrite⟩
    · cases hsave

/-- **Saved settings stand in their file, and saving them again changes nothing.** -/
theorem saved_of_save (hsave : settings.save s = (s', .ok p)) :
    p = fileIn r ∧ Saved settings s s' p := by
  obtain ⟨rfl, s₁, hensure, hwrite⟩ := exists_of_save h hsettings hsave
  have hgrows := Store.grows_ensureDirectory hensure
  obtain ⟨l, hlocate, hnot, hs'⟩ := write_eq_ok_iff.mp hwrite
  obtain rfl : l = (fileIn r).parts := Store.eq_parts_of_locate h.isAbsolute
    (fun name hname ↦ (h.leadsDown name hname).ne_points) hlocate
  have hdrop : (fileIn r).parts.dropLast = (fileIn r).parent.parts := rfl
  have hdir := Store.dir_dropLast_of_locate (by rw [h.parts_eq]; simp) hlocate
  have hwritten := replaced_withFile hdir hnot (Utf8.encode settings.text)
  rw [← hs'] at hwritten
  -- The file stands where the path leads, below the directory that was made sure of.
  have hlocate' := (hwritten.locate_iff hnot).mpr hlocate
  have hdir' := (hwritten.dir_iff hnot _).mpr hdir
  have hparent : s'.locate (fileIn r).parent = .ok (fileIn r).parent.parts :=
    Store.locate_of_node? h.isAbsolute h.leadsDown_parent (by rw [← hdrop, hdir']; simp)
  have hsame : s' = withFile s' (fileIn r).parts (Utf8.encode settings.text) := by
    rw [hs', withFile, withFile, Tree.setAt_setAt]
  refine ⟨rfl, hwritten.directory.trans hgrows.directory,
    Store.read_eq_ok_iff.mpr ⟨_, hlocate', hwritten.stored⟩,
    save_of_write ⟨h.root, h.isFileName, ?_⟩ hsettings (Store.ensureDirectory_of_dir hparent hdir')
      (write_eq_ok_iff.mpr ⟨_, hlocate', ?_, hsame⟩)⟩
  · exact (hwritten.dir_iff hnot _).mpr (hgrows.kept h.dir)
  · rw [hwritten.stored]
    simp

/-- **Settings are saved** unless a file stands in the place of their directory, or a directory in
the place of their file. -/
theorem exists_save (hfile : ∀ content, s.node? (fileIn r).parent.parts ≠ some (.file content))
    (hdir : s.node? (fileIn r).parts ≠ some .dir) :
    ∃ s', settings.save s = (s', .ok (fileIn r)) := by
  have hlocate : s.locate (fileIn r).parent = .ok (fileIn r).parent.parts :=
    Store.locate_of_dir h.isAbsolute h.leadsDown_parent h.parts_parent h.dir
  have hne : (fileIn r).parts ≠ (fileIn r).parent.parts := by
    rw [h.parts_eq]
    simp
  -- The directory is there, or is created where nothing was.
  obtain ⟨s₁, hensure, hmade, hdir₁⟩ : ∃ s₁, s.ensureDirectory (fileIn r).parent = (s₁, none) ∧
      s₁.node? (fileIn r).parent.parts = some .dir ∧ s₁.node? (fileIn r).parts ≠ some .dir := by
    cases hnode : s.node? (fileIn r).parent.parts with
    | none =>
      have habove : s.node? (fileIn r).parent.parts.dropLast = some .dir := by
        rw [h.parts_parent, List.dropLast_concat]
        exact h.dir
      have hcreated := Store.node?_setAt_of_not_dir (e := .dir .empty) (Tree.node?_cons .empty)
        habove (by rw [hnode]; simp)
      refine ⟨_, Store.ensureDirectory_of_free (by rw [h.parts_parent]; simp) hlocate hnode, ?_, ?_⟩
      · rw [hcreated, if_pos rfl]
        rfl
      · rw [hcreated, if_neg hne]
        exact hdir
    | some node =>
      cases node with
      | file content => exact absurd hnode (hfile content)
      | dir => exact ⟨s, Store.ensureDirectory_of_dir hlocate hnode, hnode, hdir⟩
  have hlocate₁ : s₁.locate (fileIn r) = .ok (fileIn r).parts :=
    Store.locate_of_dir h.isAbsolute h.leadsDown h.parts_eq hmade
  exact ⟨_, save_of_write h hsettings hensure (write_eq_ok_iff.mpr ⟨_, hlocate₁, hdir₁, rfl⟩)⟩

end

end RouteCatalog.Settings
