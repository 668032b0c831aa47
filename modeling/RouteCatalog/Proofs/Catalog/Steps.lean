import Mathlib.Logic.Relation
import RouteCatalog.Proofs.Catalog.Replace
import RouteCatalog.Proofs.Files.Path

/-!
# Replacing a file step by step

The replacement of a file takes several steps, and between two of them anything may happen: another
program goes on with its own work, the system refuses the next step, the program is killed. `Step`
says what one step does, with every reason for a failure allowed at any moment, and the text written
in pieces of any size. `Snapshot.replaceWhole` is one way to take these steps
(`steps_replaceWhole`).

What a step changes is said once (`Effect`, `Step.effect`): the directories stay, a temporary file
comes only where nothing was and leaves nothing when it goes, and the file itself changes in the
last step, from what it was to the whole text.
-/

namespace RouteCatalog.Snapshot

variable {s s' : Store} {p q : Path} {tag : Text} {content : Bytes} {l source : List Text}

/-! ## Single operations -/

theorem replaced_of_appendTo {part more : Bytes} (hq : s.locate q = .ok l)
    (hfile : s.node? l = some (.file part)) (h : s.appendTo q more = .ok s') :
    Replaced s s' l (part ++ more) := by
  have hat := Store.node?_eq_file_iff.mp hfile
  rw [Store.appendTo, hq] at h
  dsimp only at h
  rw [hat] at h
  cases h
  exact replaced_withFile (Store.dir_dropLast (by rw [hfile]; simp)) (by rw [hfile]; simp) _

theorem moved_of_replace (hq : s.locate q = .ok source)
    (hfile : s.node? source = some (.file content)) (hdiffer : s.locate p ≠ .ok source)
    (h : s.replace q p = .ok s') :
    Store.SameDirectories s s' ∧ ∃ destination, s.locate p = .ok destination ∧
      ∀ m, s'.node? m =
        if m = destination then some (.file content) else if m = source then none
          else s.node? m := by
  obtain ⟨destination, hp, hnot, hnamed, -, rfl⟩ :=
    (replace_eq_ok_iff hq (Store.node?_eq_file_iff.mp hfile)).mp h
  have hne : source ≠ destination := fun heq ↦ hdiffer (heq ▸ hp)
  have hdir := Store.dir_dropLast_of_locate hnamed hp
  rw [if_neg hne]
  exact ⟨sameDirectories_moved hfile hdir hnot hne, destination, hp,
    node?_moved hfile hdir hnot hne⟩

/-! ## Temporary files -/

theorem name_temporary (s : Store) (p : Path) (tag : Text) :
    ∃ parts, (temporary s p tag).parts = parts ++ ["." ++ p.name ++ "." ++ tag ++ ".tmp"] ∧
      ∀ name ∈ (temporary s p tag).parts, name ≠ ".." := by
  refine ⟨_, rfl, fun name hname ↦ ?_⟩
  rcases List.mem_append.mp hname with hname | hname
  · exact (Path.mem_parts_resolve hname).2
  · rw [List.mem_singleton.mp hname]
    exact fun heq ↦ absurd (congrArg List.length heq) (by simp [Text.ofString]; omega)

theorem eq_parts_of_locate_temporary (h : s.locate (temporary s p tag) = .ok l) :
    l = (temporary s p tag).parts :=
  Store.eq_parts_of_locate rfl (name_temporary s p tag).choose_spec.2 h

/-- A path without names leads to the directory that the temporary file would be in. -/
theorem locate_ne_of_nameless (hnameless : p.parts = []) (hfree : s.node? l = none)
    (hl : l = (temporary s p tag).parts) : s.locate p ≠ .ok l := by
  intro hp
  have hstart := (Store.locate_eq_ok_iff.mp hp).2
  rw [hnameless] at hstart
  have hstart : s.start p = l := Except.ok.inj hstart
  rw [Store.start] at hstart
  split at hstart
  · rw [← hstart, Store.node?_nil] at hfree
    cases hfree
  · next habsolute =>
    have hnames : ∀ name ∈ s.directory, name ≠ ".." := by
      rw [hstart, hl]
      exact (name_temporary s p tag).choose_spec.2
    have hbeside : (p.parent.resolve s.directory).parts = s.directory := by
      have hparent : p.parent.parts = [] := by rw [Path.parent, hnameless, List.dropLast_nil]
      have hrelative : p.parent.isAbsolute = false := Bool.eq_false_iff.mpr habsolute
      rw [Path.resolve, hrelative, if_neg (by decide), hparent, List.append_nil,
        Path.normalNames_of_ne_points hnames]
    have hlength := congrArg List.length (hstart.trans hl)
    rw [temporary, hbeside, List.length_append, List.length_singleton] at hlength
    omega

/-- A free place for a temporary file is not where the path leads: the name is longer. -/
theorem locate_ne_of_temporary (h : s.locate (temporary s p tag) = .ok l)
    (hfree : s.node? l = none) : s.locate p ≠ .ok l := by
  have hl := eq_parts_of_locate_temporary h
  by_cases hnameless : p.parts = []
  · exact locate_ne_of_nameless hnameless hfree hl
  · intro hp
    by_cases hname : p.name = ".."
    · rw [Store.dir_of_locate_points hnameless hname hp] at hfree
      cases hfree
    · obtain ⟨parts, hparts, -⟩ := name_temporary s p tag
      obtain ⟨above, -, -, habove⟩ := Store.exists_of_locate hnameless hp
      have hlast := congrArg List.getLast? ((habove hname).symm.trans (hl.trans hparts))
      rw [List.getLast?_append, List.getLast?_append] at hlast
      have hlength := congrArg List.length (Option.some.inj hlast)
      simp [Text.ofString] at hlength
      omega

/-! ## Steps -/

/-- How far the replacement of a file has come. -/
inductive Progress
  | idle
  /-- The temporary file is there, and the bytes are still to be written to it. -/
  | writing (temp : Path) (rest : Bytes)
  /-- A step has failed, and the temporary file is still there. -/
  | failing (temp : Path)
  | done
  /-- The replacement has failed, and there is no temporary file. -/
  | failed
  /-- The program was killed while it had this temporary file, or none. -/
  | killed (temp : Option Path)

namespace Progress

/-- The temporary file that the replacement has left so far. -/
def temp? : Progress → Option Path
  | .writing temp _ | .failing temp => some temp
  | .killed temp => temp
  | .idle | .done | .failed => none

/-- How a replacement ends that ends with this fault, or with none. -/
def ofFault : Option Files.Fault → Progress
  | none => .done
  | some _ => .failed

/-- There is a next step. -/
def IsRunning : Progress → Prop
  | .idle | .writing _ _ | .failing _ => True
  | .done | .failed | .killed _ => False

end Progress

/-- One step in the replacement of the file at a path by new contents. -/
inductive Step (p : Path) (content : Bytes) : Store × Progress → Store × Progress → Prop
  /-- A temporary file is created in a place that is free. -/
  | create {s s' : Store} (tag : Text) (h : s.createFile (temporary s p tag) = .ok s') :
    Step p content (s, .idle) (s', .writing (temporary s p tag) content)
  /-- No temporary file can be created. -/
  | refuse (s : Store) : Step p content (s, .idle) (s, .failed)
  /-- Some of what is left is written. -/
  | write {s s' : Store} {temp : Path} {rest : Bytes} (n : Nat)
    (h : s.appendTo temp (rest.take n) = .ok s') :
    Step p content (s, .writing temp rest) (s', .writing temp (rest.drop n))
  /-- When nothing is left, the temporary file takes the place of the file. -/
  | replace {s s' : Store} {temp : Path} (h : s.replace temp p = .ok s') :
    Step p content (s, .writing temp []) (s', .done)
  /-- Writing or replacing fails, for whatever reason. -/
  | fail (s : Store) (temp : Path) (rest : Bytes) :
    Step p content (s, .writing temp rest) (s, .failing temp)
  | discard {s s' : Store} {temp : Path} (h : s.remove temp = .ok s') :
    Step p content (s, .failing temp) (s', .failed)
  | kill (s : Store) {progress : Progress} (h : progress.IsRunning) :
    Step p content (s, progress) (s, .killed progress.temp?)

/-- Any number of steps. -/
abbrev Steps (p : Path) (content : Bytes) : Store × Progress → Store × Progress → Prop :=
  Relation.ReflTransGen (Step p content)

/-! ## What a step changes -/

/-- The temporary file of a replacement is where its path says, the path of the file leads
elsewhere, and what the file holds is what has been written of the contents. -/
def Holds (p : Path) (content : Bytes) (s : Store) (progress : Progress) : Prop :=
  ∀ temp, progress.temp? = some temp → s.locate temp = .ok temp.parts ∧
    s.locate p ≠ .ok temp.parts ∧ ∃ part, s.node? temp.parts = some (.file part) ∧
      ∀ rest, progress = .writing temp rest → part ++ rest = content

/-- What a step changes. -/
structure Effect (p : Path) (content : Bytes) (s s' : Store) (before after : Progress) : Prop where
  same : Store.SameDirectories s s'
  running : before.IsRunning
  holds : Holds p content s' after
  /-- A new temporary file has come to a place that was free. -/
  comes : ∀ temp, after.temp? = some temp →
    before.temp? = some temp ∨ s.node? temp.parts = none
  /-- A temporary file that is gone has left nothing. -/
  goes : ∀ temp, before.temp? = some temp →
    after.temp? = some temp ∨ s'.node? temp.parts = none
  /-- The file has the new contents after the last step, and is as it was after any other. -/
  target : ∀ destination, s.locate p = .ok destination → s'.node? destination =
    match after with
    | .done => some (.file content)
    | _ => s.node? destination
  placed : after = .done → ∃ destination, s.locate p = .ok destination
  /-- Nothing else has changed. -/
  others : ∀ m, s.locate p ≠ .ok m → (∀ temp, before.temp? = some temp → temp.parts ≠ m) →
    (∀ temp, after.temp? = some temp → temp.parts ≠ m) → s'.node? m = s.node? m

/-- A step that leaves the store as it is, and with it the temporary file. -/
theorem Effect.of_same {before after : Progress} (hrunning : before.IsRunning)
    (hbefore : Holds p content s before) (htemp : after.temp? = before.temp?)
    (hwriting : ∀ temp rest, after ≠ .writing temp rest) (hdone : after ≠ .done) :
    Effect p content s s before after where
  same := .refl s
  running := hrunning
  holds temp h := by
    obtain ⟨hlocate, htarget, part, hpart, -⟩ := hbefore temp (htemp ▸ h)
    exact ⟨hlocate, htarget, part, hpart, fun rest heq ↦ absurd heq (hwriting temp rest)⟩
  comes temp h := .inl (htemp ▸ h)
  goes temp h := .inl (htemp.trans h)
  target destination _ := by
    cases after with
    | done => exact absurd rfl hdone
    | _ => rfl
  placed h := absurd h hdone
  others m _ _ _ := rfl

theorem Effect.of_replaced {before : Progress} {temp : Path} {part rest : Bytes}
    (hrunning : before.IsRunning) (hbefore : ∀ t, before.temp? = some t → t = temp)
    (hcomes : before.temp? = some temp ∨ s.node? temp.parts = none)
    (hlocate : s.locate temp = .ok temp.parts) (htarget : s.locate p ≠ .ok temp.parts)
    (hnot : s.node? temp.parts ≠ some .dir) (hpart : part ++ rest = content)
    (h : Replaced s s' temp.parts part) :
    Effect p content s s' before (.writing temp rest) where
  same := h.sameDirectories hnot
  running := hrunning
  holds t ht := by
    obtain rfl : temp = t := Option.some.inj ht
    have hsame := h.sameDirectories hnot
    refine ⟨hsame.locate_iff.mpr hlocate, mt hsame.locate_iff.mp htarget, part, h.stored,
      fun rest' heq ↦ ?_⟩
    cases heq
    exact hpart
  comes t ht := by
    obtain rfl : temp = t := Option.some.inj ht
    exact hcomes
  goes t ht := .inl (by rw [hbefore t ht]; rfl)
  target destination hdestination := by
    have hne : destination ≠ temp.parts := fun heq ↦ htarget (heq ▸ hdestination)
    exact (h.node? destination).trans (if_neg hne)
  placed heq := by cases heq
  others m _ _ hafter := (h.node? m).trans (if_neg (Ne.symm (hafter temp rfl)))

theorem Effect.of_moved {temp : Path} {destination : List Text}
    (htarget : s.locate p ≠ .ok temp.parts) (hdestination : s.locate p = .ok destination)
    (hsame : Store.SameDirectories s s')
    (hnode : ∀ m, s'.node? m =
      if m = destination then some (.file content) else if m = temp.parts then none
        else s.node? m) :
    Effect p content s s' (.writing temp []) .done where
  same := hsame
  running := trivial
  holds _ h := by cases h
  comes _ h := by cases h
  goes t ht := by
    obtain rfl : temp = t := Option.some.inj ht
    have hne : temp.parts ≠ destination := fun heq ↦ htarget (heq ▸ hdestination)
    exact .inr (by rw [hnode, if_neg hne, if_pos rfl])
  target d hd := by
    obtain rfl : destination = d := Except.ok.inj (hdestination.symm.trans hd)
    exact (hnode destination).trans (if_pos rfl)
  placed _ := ⟨destination, hdestination⟩
  others m hm hold _ := by
    have hother : m ≠ destination := fun heq ↦ hm (heq ▸ hdestination)
    rw [hnode, if_neg hother, if_neg (Ne.symm (hold temp rfl))]

theorem Effect.of_withoutFile {temp : Path} {part : Bytes}
    (htarget : s.locate p ≠ .ok temp.parts) (hpart : s.node? temp.parts = some (.file part)) :
    Effect p content s (s.withoutFile temp.parts) (.failing temp) .failed where
  same := Store.sameDirectories_withoutFile hpart
  running := trivial
  holds _ h := by cases h
  comes _ h := by cases h
  goes t ht := by
    obtain rfl : temp = t := Option.some.inj ht
    exact .inr ((Store.node?_withoutFile hpart temp.parts).trans (if_pos rfl))
  target d hd := by
    have hne : d ≠ temp.parts := fun heq ↦ htarget (heq ▸ hd)
    exact (Store.node?_withoutFile hpart d).trans (if_neg hne)
  placed h := by cases h
  others m _ hold _ :=
    (Store.node?_withoutFile hpart m).trans (if_neg (Ne.symm (hold temp rfl)))

/-- **What one step changes**, whichever it is. -/
theorem Step.effect {before after : Store × Progress} (h : Step p content before after)
    (hbefore : Holds p content before.1 before.2) :
    Effect p content before.1 after.1 before.2 after.2 := by
  cases h with
  | @create s s' tag h =>
    obtain ⟨l, hlocate, hfree, rfl⟩ := createFile_eq_ok_iff.mp h
    have htarget := locate_ne_of_temporary hlocate hfree
    obtain rfl := eq_parts_of_locate_temporary hlocate
    have hnot : s.node? (temporary s p tag).parts ≠ some .dir := by
      rw [hfree]
      simp
    exact .of_replaced trivial (fun _ ht ↦ (by cases ht)) (.inr hfree) hlocate htarget hnot rfl
      (replaced_withFile (dir_dropLast_source hlocate) hnot [])
  | refuse s => exact .of_same trivial hbefore rfl (fun _ _ ↦ by simp) (by simp)
  | @write s s' temp rest n h =>
    obtain ⟨hlocate, htarget, part, hpart, hrest⟩ := hbefore temp rfl
    have hwritten : part ++ rest.take n ++ rest.drop n = content := by
      rw [List.append_assoc, List.take_append_drop]
      exact hrest rest rfl
    exact .of_replaced trivial (fun t ht ↦ (Option.some.inj ht).symm) (.inl rfl) hlocate htarget
      (by rw [hpart]; simp) hwritten (replaced_of_appendTo hlocate hpart h)
  | @replace s s' temp h =>
    obtain ⟨hlocate, htarget, part, hpart, hrest⟩ := hbefore temp rfl
    -- Nothing is left to write, so the temporary file holds the whole contents.
    obtain rfl : part = content := by rw [← hrest [] rfl, List.append_nil]
    obtain ⟨hsame, destination, hdestination, hnode⟩ := moved_of_replace hlocate hpart htarget h
    exact .of_moved htarget hdestination hsame hnode
  | fail s temp rest => exact .of_same trivial hbefore rfl (fun _ _ ↦ by simp) (by simp)
  | @discard s s' temp h =>
    obtain ⟨hlocate, htarget, part, hpart, -⟩ := hbefore temp rfl
    obtain rfl := Except.ok.inj ((Store.remove_of_file hlocate hpart).symm.trans h)
    exact .of_withoutFile htarget hpart
  | kill s hrunning => exact .of_same hrunning hbefore rfl (fun _ _ ↦ by simp) (by simp)

/-! ## The program's own steps -/

/-- After a failure the temporary file can be removed, because it is there. -/
theorem steps_discard {start : Store × Progress} {temp : Path} {rest : Bytes}
    (hsteps : Steps p content start (s, .writing temp rest))
    (hholds : Holds p content s (.writing temp rest)) :
    Steps p content start ((s.remove temp).toOption.getD s, .failed) := by
  obtain ⟨hlocate, -, part, hpart, -⟩ := hholds temp rfl
  have hremove := Store.remove_of_file hlocate hpart
  rw [hremove]
  exact (hsteps.tail (.fail s temp rest)).tail (.discard hremove)

theorem Step.writeAll {temp : Path} {rest : Bytes} (h : s.appendTo temp rest = .ok s') :
    Step p content (s, .writing temp rest) (s', .writing temp []) := by
  have hpiece : s.appendTo temp (rest.take rest.length) = .ok s' := by rwa [List.take_length]
  have hstep : Step p content (s, .writing temp rest)
      (s', .writing temp (rest.drop rest.length)) := .write rest.length hpiece
  rwa [List.drop_length] at hstep

/-- **Replacing a file as a whole is one way to take these steps**, and it comes to an end. -/
theorem steps_replaceWhole (s : Store) (p : Path) (tag : Text) (content : Bytes) :
    Steps p content (s, .idle) ((replaceWhole s p tag content).1,
      .ofFault (replaceWhole s p tag content).2) := by
  rw [replaceWhole]
  cases hcreate : s.createFile (temporary s p tag) with
  | error fault => exact .single (.refuse s)
  | ok created =>
    have hfirst : Step p content (s, .idle) (created, .writing (temporary s p tag) content) :=
      .create tag hcreate
    have hcreated : Holds p content created (.writing (temporary s p tag) content) :=
      (hfirst.effect fun _ ht ↦ (by cases ht)).holds
    dsimp only
    cases hwrite : created.appendTo (temporary s p tag) content with
    | error fault => exact steps_discard (.single hfirst) hcreated
    | ok written =>
      have hsecond : Step p content (created, .writing (temporary s p tag) content)
          (written, .writing (temporary s p tag) []) := .writeAll hwrite
      have hsteps := Relation.ReflTransGen.tail (.single hfirst) hsecond
      dsimp only
      cases hreplace : written.replace (temporary s p tag) p with
      | error fault => exact steps_discard hsteps (hsecond.effect hcreated).holds
      | ok replaced => exact hsteps.tail (.replace hreplace)

end RouteCatalog.Snapshot
