import Mathlib.Logic.Function.Basic
import RouteCatalog.Proofs.Catalog.Snapshot
import RouteCatalog.Proofs.Catalog.Steps
import RouteCatalog.Site

/-!
# Readers and writers of one snapshot

Several programs replace one snapshot at the same time, each in steps of its own, and their steps
come in any order; any of them may fail or be killed between two steps. `Traffic` is the state of
all of them, and the order in which they came to replace the file is part of it.

The temporary files are in different places, none of them where the snapshot is, and each holds what
its program has written so far (`Consistent`). A step of one program keeps it so
(`Consistent.after`), and hence every run does (`consistent_of_reaches`). What readers see is then
the whole text of the last program that replaced the file, or what was there before
(`readers_see_whole_texts`).
-/

namespace RouteCatalog.Snapshot

variable {ι : Type} {s s' : Store} {p : Path} {contents : ι → Bytes}

/-- Replacements of one file that go on at the same time. -/
structure Traffic (ι : Type) where
  store : Store
  /-- How far each of the replacements has come. -/
  progress : ι → Progress
  /-- The replacements that have taken place, the last one first. -/
  replaced : List ι

namespace Traffic

/-- No replacement has begun. -/
def start (s : Store) : Traffic ι := ⟨s, fun _ ↦ .idle, []⟩

/-! ## What is where -/

variable {t : Traffic ι}

/-- The state of replacements that began in a store `s`: what is where. -/
structure Consistent (s : Store) (p : Path) (contents : ι → Bytes) (t : Traffic ι) : Prop where
  same : Store.SameDirectories s t.store
  holds : ∀ i, Holds p (contents i) t.store (t.progress i)
  /-- Every temporary file is where there was nothing. -/
  free : ∀ i temp, (t.progress i).temp? = some temp → s.node? temp.parts = none
  apart : ∀ i j temp temp', (t.progress i).temp? = some temp → (t.progress j).temp? = some temp' →
    temp.parts = temp'.parts → i = j
  /-- The replacements that have taken place are those that say so. -/
  finished : ∀ i, i ∈ t.replaced ↔ t.progress i = .done
  /-- The file has the contents of the last replacement, or is as it was. -/
  target : ∀ destination, s.locate p = .ok destination → t.store.node? destination =
    match t.replaced with
    | [] => s.node? destination
    | i :: _ => some (.file (contents i))
  placed : t.replaced ≠ [] → ∃ destination, s.locate p = .ok destination
  /-- Nothing else has changed. -/
  others : ∀ m, s.locate p ≠ .ok m →
    (∀ i temp, (t.progress i).temp? = some temp → temp.parts ≠ m) → t.store.node? m = s.node? m

theorem consistent_start (s : Store) (p : Path) (contents : ι → Bytes) :
    Consistent s p contents (start s) where
  same := .refl s
  holds _ _ h := by cases h
  free _ _ h := by cases h
  apart _ _ _ _ h := by cases h
  finished _ := by simp [start]
  target _ _ := rfl
  placed h := absurd rfl h
  others _ _ _ := rfl

/-- When every replacement has come to an end, all temporary files are gone. -/
theorem Consistent.eq_of_ended (h : Consistent s p contents t)
    (hended : ∀ i, t.progress i = .idle ∨ t.progress i = .done ∨ t.progress i = .failed)
    {m : List Text} (hm : s.locate p ≠ .ok m) : t.store.node? m = s.node? m := by
  refine h.others m hm fun i temp htemp ↦ ?_
  rcases hended i with heq | heq | heq <;> rw [heq] at htemp <;> cases htemp

section Effect

variable {i j : ι} {progress : Progress}
variable (h : Consistent s p contents t)
  (heffect : Effect p (contents i) t.store s' (t.progress i) progress)
include h heffect

theorem Consistent.free_of_effect {temp : Path} (htemp : progress.temp? = some temp) :
    s.node? temp.parts = none := by
  rcases heffect.comes temp htemp with hold | hfree
  · exact h.free i temp hold
  · obtain ⟨-, htarget, -⟩ := heffect.holds temp htemp
    have hmisses : s.locate p ≠ .ok temp.parts := fun heq ↦
      htarget (heffect.same.locate_iff.mpr (h.same.locate_iff.mpr heq))
    -- Every temporary file that is there stands somewhere, and here there is nothing.
    rw [← h.others temp.parts hmisses fun j other hother heq ↦ ?_, hfree]
    obtain ⟨-, -, part, hpart, -⟩ := h.holds j other hother
    rw [heq, hfree] at hpart
    cases hpart

theorem Consistent.apart_of_effect (hj : j ≠ i) {temp other : Path}
    (htemp : progress.temp? = some temp) (hother : (t.progress j).temp? = some other) :
    temp.parts ≠ other.parts := by
  intro heq
  rcases heffect.comes temp htemp with hold | hfree
  · exact hj (h.apart i j temp other hold hother heq).symm
  · obtain ⟨-, -, part, hpart, -⟩ := h.holds j other hother
    rw [← heq, hfree] at hpart
    cases hpart

theorem Consistent.holds_of_effect (hj : j ≠ i) :
    Holds p (contents j) s' (t.progress j) := by
  intro other hother
  obtain ⟨hlocate, htarget, part, hpart, hrest⟩ := h.holds j other hother
  refine ⟨heffect.same.locate_iff.mpr hlocate, mt heffect.same.locate_iff.mp htarget, part, ?_,
    hrest⟩
  rw [heffect.others other.parts htarget (fun temp htemp heq ↦ ?_) fun temp htemp ↦ ?_, hpart]
  · exact hj (h.apart i j temp other htemp hother heq).symm
  · exact h.apart_of_effect heffect hj htemp hother

theorem Consistent.not_mem_of_effect : i ∉ t.replaced := by
  intro hmem
  have hrunning := heffect.running
  rw [(h.finished i).mp hmem] at hrunning
  exact hrunning

/-- Where no temporary file is after the step, there is what was there from the beginning. -/
theorem Consistent.others_of_effect {m : List Text} (hm : s.locate p ≠ .ok m)
    (hnew : ∀ temp, progress.temp? = some temp → temp.parts ≠ m)
    (hkept : ∀ j ≠ i, ∀ temp, (t.progress j).temp? = some temp → temp.parts ≠ m) :
    s'.node? m = s.node? m := by
  have htarget : t.store.locate p ≠ .ok m := mt h.same.locate_iff.mp hm
  by_cases hgone : ∃ temp, (t.progress i).temp? = some temp ∧ temp.parts = m
  · -- The temporary file that was here is gone, and nothing was here before it.
    obtain ⟨temp, htemp, rfl⟩ := hgone
    rw [h.free i temp htemp]
    exact (heffect.goes temp htemp).resolve_left fun hstill ↦ hnew temp hstill rfl
  · have hold (temp : Path) (htemp : (t.progress i).temp? = some temp) : temp.parts ≠ m :=
      fun heq ↦ hgone ⟨temp, htemp, heq⟩
    rw [heffect.others m htarget hold hnew]
    refine h.others m hm fun j temp htemp ↦ ?_
    by_cases hj : j = i
    · exact hold temp (hj ▸ htemp)
    · exact hkept j hj temp htemp

end Effect

/-! ## Steps in any order -/

variable [DecidableEq ι]

/-- The state after a step of one replacement. -/
def after (t : Traffic ι) (i : ι) (s : Store) (progress : Progress) : Traffic ι where
  store := s
  progress := Function.update t.progress i progress
  replaced :=
    match progress with
    | .done => i :: t.replaced
    | _ => t.replaced

/-- One of the replacements takes a step. -/
inductive Moves (p : Path) (contents : ι → Bytes) : Traffic ι → Traffic ι → Prop
  | step {t : Traffic ι} (i : ι) {s : Store} {progress : Progress}
    (h : Step p (contents i) (t.store, t.progress i) (s, progress)) :
    Moves p contents t (t.after i s progress)

/-- Steps of the replacements in any number and any order. -/
abbrev Reaches (p : Path) (contents : ι → Bytes) : Traffic ι → Traffic ι → Prop :=
  Relation.ReflTransGen (Moves p contents)

section After

variable {i : ι} {progress : Progress}

theorem progress_after (t : Traffic ι) (i j : ι) (s' : Store) (progress : Progress) :
    (t.after i s' progress).progress j = if j = i then progress else t.progress j :=
  Function.update_apply t.progress i progress j

theorem replaced_after_of_ne (h : progress ≠ .done) :
    (t.after i s' progress).replaced = t.replaced := by
  cases progress with
  | done => exact absurd rfl h
  | _ => rfl

/-- **A step of one replacement keeps everything in its place.** -/
theorem Consistent.after (h : Consistent s p contents t)
    (heffect : Effect p (contents i) t.store s' (t.progress i) progress) :
    Consistent s p contents (t.after i s' progress) where
  same := h.same.trans heffect.same
  holds j := by
    rw [progress_after]
    split
    · next hj => exact hj ▸ heffect.holds
    · next hj => exact h.holds_of_effect heffect hj
  free j temp htemp := by
    rw [progress_after] at htemp
    split at htemp
    · exact h.free_of_effect heffect htemp
    · exact h.free j temp htemp
  apart j k temp temp' htemp htemp' heq := by
    rw [progress_after] at htemp htemp'
    split at htemp
    · next hj =>
      split at htemp'
      · next hk => rw [hj, hk]
      · next hk => exact absurd heq (h.apart_of_effect heffect hk htemp htemp')
    · next hj =>
      split at htemp'
      · next hk => exact absurd heq.symm (h.apart_of_effect heffect hj htemp' htemp)
      · exact h.apart j k temp temp' htemp htemp' heq
  finished j := by
    rw [progress_after]
    by_cases hdone : progress = .done
    · subst hdone
      rw [Traffic.after, List.mem_cons]
      split
      · next hj => simp [hj]
      · next hj => simp [hj, h.finished j]
    · rw [replaced_after_of_ne hdone]
      split
      · next hj => simp [hj, h.not_mem_of_effect heffect, hdone]
      · exact h.finished j
  target destination hdestination := by
    rw [show (t.after i s' progress).store = s' from rfl,
      heffect.target destination (h.same.locate_iff.mpr hdestination)]
    by_cases hdone : progress = .done
    · subst hdone
      rfl
    · rw [replaced_after_of_ne hdone, ← h.target destination hdestination]
      cases progress with
      | done => exact absurd rfl hdone
      | _ => rfl
  placed hne := by
    by_cases hdone : progress = .done
    · obtain ⟨destination, hdestination⟩ := heffect.placed hdone
      exact ⟨destination, h.same.locate_iff.mp hdestination⟩
    · rw [replaced_after_of_ne hdone] at hne
      exact h.placed hne
  others m hm htemps :=
    h.others_of_effect heffect hm
      (fun temp htemp ↦ htemps i temp (by rw [progress_after, if_pos rfl, htemp]))
      fun j hj temp htemp ↦ htemps j temp (by rw [progress_after, if_neg hj, htemp])

end After

theorem Consistent.moves {t' : Traffic ι} (h : Consistent s p contents t)
    (hmoves : Moves p contents t t') : Consistent s p contents t' := by
  obtain ⟨i, hstep⟩ := hmoves
  exact h.after (hstep.effect (h.holds i))

/-- **Every run keeps everything in its place.** -/
theorem consistent_of_reaches (h : Reaches p contents (start s) t) : Consistent s p contents t := by
  induction h with
  | refl => exact consistent_start s p contents
  | tail _ hmoves ih => exact ih.moves hmoves

/-- The steps of one replacement, with no step of another between them, are a run of all. -/
theorem reaches_of_steps (contents : ι → Bytes) (i : ι) {before after : Store × Progress}
    (h : Steps p (contents i) before after) {t : Traffic ι}
    (hbefore : (t.store, t.progress i) = before) :
    ∃ t', Reaches p contents t t' ∧ (t'.store, t'.progress i) = after ∧
      ∀ j ≠ i, t'.progress j = t.progress j := by
  induction h with
  | refl => exact ⟨t, .refl, hbefore, fun _ _ ↦ rfl⟩
  | @tail middle after _ hstep ih =>
    obtain ⟨t', hreaches, rfl, hothers⟩ := ih
    refine ⟨t'.after i after.1 after.2, hreaches.tail (.step i hstep), ?_, fun j hj ↦ ?_⟩
    · rw [progress_after, if_pos rfl]
      rfl
    · rw [progress_after, if_neg hj, hothers j hj]

end Traffic

/-! ## Readers -/

/-- Readers see the same at a path in both stores: its bytes, the page, and the snapshot. -/
structure SameSight (s s' : Store) (p : Path) : Prop where
  /-- Reading gives the same bytes, or fails. -/
  bytes : (s'.read p).toOption = (s.read p).toOption
  page : Site.snapshot s' p = Site.snapshot s p
  usable : read s' p = read s p

/-- Readers see a text at a path, and the whole of it. -/
structure ShowsText (s : Store) (p : Path) (text : Text) : Prop where
  bytes : s.read p = .ok (Utf8.encode text)
  page : Site.snapshot s p = .ok { status := 200, body := Utf8.encode text }
  /-- The snapshot is the one in the text. -/
  loaded : load s p = ofText text

/-- Which fault it is when reading fails makes no difference to readers. -/
theorem sameSight_of_read (h : (s'.read p).toOption = (s.read p).toOption) : SameSight s s' p := by
  cases htaken : Files.refusal? p.parts.flatten with
  | some cause =>
    have hsame : s'.read p = s.read p :=
      (Store.read_of_refusal? htaken).trans (Store.read_of_refusal? htaken).symm
    exact ⟨h, by rw [Site.snapshot, hsame, Site.snapshot], by rw [read, load, hsame, read, load]⟩
  | none =>
    cases hnew : s'.read p with
    | ok content =>
      cases hold : s.read p with
      | ok old =>
        obtain rfl : content = old := by
          rw [hnew, hold] at h
          exact Option.some.inj h
        exact ⟨h, by rw [Site.snapshot, hnew, Site.snapshot, hold],
          by rw [read, load, hnew, read, load, hold]⟩
      | error fault =>
        rw [hnew, hold] at h
        cases h
    | error fault =>
      cases hold : s.read p with
      | ok old =>
        rw [hnew, hold] at h
        cases h
      | error earlier =>
        refine ⟨h, ?_, by rw [read, load, hnew, read, load, hold]⟩
        rw [Site.snapshot, hnew, Site.snapshot, hold]
        dsimp only
        rw [if_pos (Store.fromSystem_of_read htaken hnew),
          if_pos (Store.fromSystem_of_read htaken hold)]

theorem showsText_of_read {c : Catalog} (h : s.read p = .ok (Utf8.encode c.text)) :
    ShowsText s p c.text where
  bytes := h
  page := by rw [Site.snapshot, h]
  loaded := by
    have hplain : Text.Plain c.text := Json.plain_indented 0 c.toJson
    rw [load, h]
    dsimp only
    rw [Utf8.decode_encode hplain]
    dsimp only
    rw [Text.unifyNewlines_of_plain hplain]

namespace Traffic

variable {t : Traffic ι}

theorem Consistent.read_of_replaced (h : Consistent s p contents t) {i : ι}
    (hlast : t.replaced.head? = some i) : t.store.read p = .ok (contents i) := by
  obtain ⟨rest, hreplaced⟩ := List.head?_eq_some_iff.mp hlast
  obtain ⟨destination, hdestination⟩ := h.placed (by rw [hreplaced]; exact List.cons_ne_nil _ _)
  have hstored := h.target destination hdestination
  rw [hreplaced] at hstored
  exact Store.read_eq_ok_iff.mpr ⟨destination, h.same.locate_iff.mpr hdestination, hstored⟩

theorem Consistent.read_of_untouched (h : Consistent s p contents t) (hnone : t.replaced = []) :
    (t.store.read p).toOption = (s.read p).toOption := by
  have hstored (destination : List Text) (hdestination : s.locate p = .ok destination) :
      t.store.node? destination = s.node? destination := by
    have htarget := h.target destination hdestination
    rwa [hnone] at htarget
  have hread (content : Bytes) : t.store.read p = .ok content ↔ s.read p = .ok content := by
    rw [Store.read_eq_ok_iff, Store.read_eq_ok_iff]
    refine exists_congr fun destination ↦ ?_
    rw [h.same.locate_iff]
    exact and_congr_right fun hdestination ↦ by rw [hstored destination hdestination]
  cases hnew : t.store.read p with
  | ok content => rw [(hread content).mp hnew]
  | error fault =>
    cases hold : s.read p with
    | ok content =>
      rw [(hread content).mpr hold] at hnew
      cases hnew
    | error earlier => rfl

end Traffic

/-- **Readers see whole texts only.** Any number of programs, one for each index, replace the
snapshot at a path by the texts of their catalogs, in steps that come in any order; any of them may
fail or be killed at any moment. At every moment a reader sees the text of the program that came
last to replace the snapshot, and the whole of it; as long as none did, it sees what was there
before. Once no program is under way and none was killed, there is no other file than before. To
replace the snapshot in one go is to take some of these steps. -/
theorem readers_see_whole_texts [DecidableEq ι] {catalogs : ι → Catalog} {t : Traffic ι}
    (h : Traffic.Reaches p (fun i ↦ Utf8.encode (catalogs i).text) (Traffic.start s) t) :
    (∀ i, t.replaced.head? = some i → ShowsText t.store p (catalogs i).text) ∧
      (t.replaced = [] → SameSight s t.store p) ∧
      (∀ i, i ∈ t.replaced ↔ t.progress i = .done) ∧
      ((∀ i, t.progress i = .idle ∨ t.progress i = .done ∨ t.progress i = .failed) →
        ∀ m, s.locate p ≠ .ok m → t.store.node? m = s.node? m) ∧
      ∀ i tag, t.progress i = .idle →
        ∃ t', Traffic.Reaches p (fun i ↦ Utf8.encode (catalogs i).text) t t' ∧
          t'.store = (replaceWhole t.store p tag (Utf8.encode (catalogs i).text)).1 ∧
          t'.progress i =
            .ofFault (replaceWhole t.store p tag (Utf8.encode (catalogs i).text)).2 := by
  have hconsistent := Traffic.consistent_of_reaches h
  refine ⟨fun i hlast ↦ showsText_of_read (hconsistent.read_of_replaced hlast),
    fun hnone ↦ sameSight_of_read (hconsistent.read_of_untouched hnone), hconsistent.finished,
    fun hended m hm ↦ hconsistent.eq_of_ended hended hm, fun i tag hidle ↦ ?_⟩
  obtain ⟨t', hreaches, hended, -⟩ :=
    Traffic.reaches_of_steps (fun i ↦ Utf8.encode (catalogs i).text) i
      (steps_replaceWhole t.store p tag (Utf8.encode (catalogs i).text)) (by rw [← hidle])
  exact ⟨t', hreaches, (Prod.mk.inj hended).1, (Prod.mk.inj hended).2⟩

private def crowdedStore : Store := ⟨.dir "r" (.file "o" [1, 2] .empty) .empty, []⟩

private def crowdedPath : Path := ⟨"/", ["r", "o"]⟩

private def crowdedCatalog (first : Bool) : Catalog :=
  ⟨"/r", [], [], if first then "1" else "2"⟩

/-- One program is killed when it has written one byte to its temporary file, between the steps of
another that replaces the snapshot: its file stays, and readers see the text of the other. -/
theorem readers_see_whole_texts_killed :
    ∃ t : Traffic Bool, Traffic.Reaches crowdedPath
        (fun first ↦ Utf8.encode (crowdedCatalog first).text) (Traffic.start crowdedStore) t ∧
      t.progress true = .killed (some ⟨"/", ["r", ".o.a.tmp"]⟩) ∧
      t.store.read ⟨"/", ["r", ".o.a.tmp"]⟩ = .ok [123] ∧
      ShowsText t.store crowdedPath (crowdedCatalog false).text := by
  have hfirst : Traffic.Reaches crowdedPath (fun first ↦ Utf8.encode (crowdedCatalog first).text)
      (Traffic.start crowdedStore) _ := .single (.step true (.create "a" rfl))
  have hother := hfirst.tail (.step false (.create "b" rfl))
  have hpiece := hother.tail (.step true (.write 1 rfl))
  have hwhole := hpiece.tail (.step false (.write (Utf8.encode (crowdedCatalog false).text).length
    rfl))
  have hkilled := hwhole.tail (.step true (.kill _ trivial))
  have hrun := hkilled.tail (.step false (.replace rfl))
  exact ⟨_, hrun, rfl, rfl, (readers_see_whole_texts hrun).1 false rfl⟩

end RouteCatalog.Snapshot
