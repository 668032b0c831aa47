import Mathlib.Data.List.Perm.Basic
import RouteCatalog.Proofs.Files.Collect

/-!
# Walks

A walk lists the sources below a directory. A source has a name that goes on before one of the four
suffixes and that does not end like a declaration file, and no directory on the way to it is passed
over. The walk lists the sources of a directory first, in the order of their names by code point,
and then, directory by directory in the same order, all of what the walk of each lists
(`Sources.exists_sorted`).

A directory may be listed in any order. Trees that differ in these orders only, at whatever depth,
are the same tree listed again (`Tree.Relisted`), and walks through them are the same
(`Store.walk_lists_sources`).
-/

namespace RouteCatalog

/-- The order of texts is the lexicographic order of the numbers of their code points. -/
theorem Text.le_and_ne_iff {s t : Text} :
    Text.le s t = true ∧ s ≠ t ↔ s.map CodePoint.toNat < t.map CodePoint.toNat := by
  induction s generalizing t with
  | nil => cases t <;> simp [Text.le]
  | cons a s ih =>
    cases t with
    | nil => simp [Text.le]
    | cons b t =>
      rw [List.map_cons, List.map_cons, List.cons_lt_cons_iff, ← ih]
      by_cases hab : a = b
      · subst hab
        simp [Text.le]
      · have hne : a.toNat ≠ b.toNat := fun h ↦ hab (CodePoint.toNat_injective h)
        simp [Text.le, hab, hne]

namespace Path

theorem exists_of_suffixOf_ne_nil {name : Text} (h : suffixOf name ≠ []) :
    ∃ stem, stem ≠ [] ∧ name = stem ++ suffixOf name := by
  set ending := (name.reverse.takeWhile (· ≠ CodePoint.ofChar '.')).reverse with hending
  have hsplit : name = (name.reverse.dropWhile (· ≠ CodePoint.ofChar '.')).reverse ++ ending := by
    rw [hending, ← List.reverse_append, List.takeWhile_append_dropWhile, List.reverse_reverse]
  have hsuffix : suffixOf name =
      if ending.isEmpty || name.length - ending.length - 1 = 0 || ending.length = name.length
      then [] else CodePoint.ofChar '.' :: ending := rfl
  rw [hsuffix] at h ⊢
  split at h
  · exact absurd rfl h
  · next hcond =>
    rw [if_neg hcond]
    simp only [Bool.or_eq_true, decide_eq_true_eq, not_or] at hcond
    obtain ⟨⟨-, hstem⟩, hlength⟩ := hcond
    -- The ending does not take up the whole name, so a point stands before it.
    cases hdrop : name.reverse.dropWhile (· ≠ CodePoint.ofChar '.') with
    | nil =>
      rw [hdrop, List.reverse_nil, List.nil_append] at hsplit
      exact absurd (congrArg List.length hsplit).symm hlength
    | cons c before =>
      have hc : c = CodePoint.ofChar '.' := by
        have hhead := List.head?_dropWhile_not (· ≠ CodePoint.ofChar '.') name.reverse
        rw [hdrop] at hhead
        simpa using hhead
      rw [hdrop, hc, List.reverse_cons, List.append_assoc, List.singleton_append] at hsplit
      refine ⟨before.reverse, fun hnil ↦ hstem ?_, hsplit⟩
      rw [hnil] at hsplit
      rw [congrArg List.length hsplit]
      simp

theorem suffixOf_append {stem ending : Text} (hstem : stem ≠ []) (hending : ending ≠ [])
    (hpoint : CodePoint.ofChar '.' ∉ ending) :
    suffixOf (stem ++ CodePoint.ofChar '.' :: ending) = CodePoint.ofChar '.' :: ending := by
  have htake : (stem ++ CodePoint.ofChar '.' :: ending).reverse.takeWhile
      (· ≠ CodePoint.ofChar '.') = ending.reverse := by
    rw [List.reverse_append, List.reverse_cons, List.append_assoc, List.singleton_append,
      List.takeWhile_append_of_pos, List.takeWhile_cons_of_neg (by simp), List.append_nil]
    intro c hc
    have hne : c ≠ CodePoint.ofChar '.' := fun heq ↦ hpoint (heq ▸ List.mem_reverse.mp hc)
    simpa using hne
  have hpos : 0 < stem.length := List.length_pos_iff.mpr hstem
  rw [suffixOf, htake, List.reverse_reverse]
  refine if_neg ?_
  simp only [Bool.or_eq_true, decide_eq_true_eq, List.isEmpty_iff, List.length_append,
    List.length_cons, not_or]
  exact ⟨⟨hending, by omega⟩, by omega⟩

end Path

namespace Sources

variable {t : Tree} {name : Text} {l : List Text}

/-! ## Names of sources -/

/-- A name that goes on before one of the four suffixes, and that does not end like a declaration
file. -/
def IsSourceName (name : Text) : Prop :=
  (∃ stem ending, stem ≠ [] ∧ ending ∈ suffixes ∧ name = stem ++ ending) ∧
    ¬ Text.ofString ".d.ts" <:+ name

theorem suffixOf_mem_suffixes_iff :
    Path.suffixOf name ∈ suffixes ↔
      ∃ stem ending, stem ≠ [] ∧ ending ∈ suffixes ∧ name = stem ++ ending := by
  constructor
  · intro h
    have hne : Path.suffixOf name ≠ [] := by
      intro hnil
      rw [hnil] at h
      revert h
      decide
    obtain ⟨stem, hstem, hname⟩ := Path.exists_of_suffixOf_ne_nil hne
    exact ⟨stem, _, hstem, h, hname⟩
  · rintro ⟨stem, ending, hstem, hending, rfl⟩
    have hpoints : ∀ ending ∈ suffixes, ∃ rest : Text, rest ≠ [] ∧ CodePoint.ofChar '.' ∉ rest ∧
        ending = CodePoint.ofChar '.' :: rest := by
      simp only [suffixes, List.forall_mem_cons]
      exact ⟨⟨"js", by decide, by decide, rfl⟩, ⟨"ts", by decide, by decide, rfl⟩,
        ⟨"mjs", by decide, by decide, rfl⟩, ⟨"cjs", by decide, by decide, rfl⟩, by simp⟩
    obtain ⟨rest, hrest, hpoint, rfl⟩ := hpoints ending hending
    rwa [Path.suffixOf_append hstem hrest hpoint]

theorem isSource_iff : isSource name = true ↔ IsSourceName name := by
  have hend : Text.startsWith (Text.ofString ".d.ts").reverse name.reverse = true ↔
      Text.ofString ".d.ts" <:+ name := by
    rw [← List.reverse_prefix, Text.startsWith, Option.isSome_iff_exists]
    simp only [Text.dropLiteral?_eq_some_iff]
    exact ⟨fun ⟨rest, h⟩ ↦ ⟨rest, h.symm⟩, fun ⟨rest, h⟩ ↦ ⟨rest, h.symm⟩⟩
  rw [isSource, Bool.and_eq_true, Bool.not_eq_true', Bool.eq_false_iff, Ne, hend,
    List.contains_iff_mem, suffixOf_mem_suffixes_iff, and_comm]
  rfl

/-- A location is that of a source if it ends in the name of one and no directory on the way is
passed over. -/
theorem candidate_iff :
    Candidate l ↔ ∃ above name, l = above ++ [name] ∧ IsSourceName name ∧
      ∀ directory ∈ above, directory ∉ skippedDirectories := by
  induction l with
  | nil => simp [Candidate]
  | cons first rest ih =>
    cases rest with
    | nil =>
      rw [Candidate, isSource_iff]
      constructor
      · exact fun h ↦ ⟨[], first, rfl, h, by simp⟩
      · rintro ⟨above, name, heq, hname, -⟩
        obtain ⟨rfl, heq⟩ : above = [] ∧ [first] = [name] := by
          cases above with
          | nil => exact ⟨rfl, heq⟩
          | cons a above => simp at heq
        cases heq
        exact hname
    | cons next rest =>
      rw [candidate_cons_cons, ih, Bool.eq_false_iff, Ne, List.contains_iff_mem]
      constructor
      · rintro ⟨hfirst, above, name, heq, hname, habove⟩
        exact ⟨first :: above, name, congrArg (first :: ·) heq, hname,
          List.forall_mem_cons.mpr ⟨hfirst, habove⟩⟩
      · rintro ⟨above, name, heq, hname, habove⟩
        cases above with
        | nil => simp at heq
        | cons a above =>
          obtain ⟨rfl, hrest⟩ := List.cons.inj heq
          obtain ⟨hfirst, habove⟩ := List.forall_mem_cons.mp habove
          exact ⟨hfirst, above, name, hrest, hname, habove⟩

/-! ## One directory -/

/-- The order of names by code point, in which no name goes before itself. -/
def Before (a b : Text) : Prop := a.map CodePoint.toNat < b.map CodePoint.toNat

/-- The sources of a directory, and the directories in it that are not passed over, each in the
order of their names. -/
structure Sorted (t : Tree) (files : List Text) (directories : List (Text × Tree)) : Prop where
  pairwise_files : files.Pairwise Before
  /-- The files are those with the name of a source. -/
  mem_files : ∀ name, name ∈ files ↔
    IsSourceName name ∧ ∃ content, t.find? name = some (.file content)
  pairwise_directories : (directories.map Prod.fst).Pairwise Before
  /-- The directories are those that are not passed over. -/
  mem_directories : ∀ name inside, (name, inside) ∈ directories ↔
    name ∉ skippedDirectories ∧ t.find? name = some (.dir inside)

/-- **The sources of a directory come first, and then those of the directories in it, one after the
other.** -/
theorem exists_sorted (ht : t.Distinct) :
    ∃ files directories, Sorted t files directories ∧
      ofTree t = files.map ([·]) ++ directories.flatMap fun d ↦ (ofTree d.2).map (d.1 :: ·) := by
  obtain ⟨hfiles, hdirectories⟩ := nodup_listing ht
  rw [listing_directories, List.map_map] at hdirectories
  refine ⟨(listing t).1.mergeSort Text.le,
    (keptDirectories t).mergeSort fun a b ↦ Text.le a.1 b.1, ?_, ?_⟩
  · constructor
    · exact (pairwise_mergeSort_of_nodup id (by rwa [List.map_id])).imp Text.le_and_ne_iff.mp
    · intro name
      rw [List.mem_mergeSort, mem_listing_files ht, isSource_iff]
    · rw [List.pairwise_map]
      exact (pairwise_mergeSort_of_nodup Prod.fst hdirectories).imp Text.le_and_ne_iff.mp
    · intro name inside
      rw [List.mem_mergeSort, mem_keptDirectories ht, Bool.eq_false_iff, Ne, List.contains_iff_mem]
  · have hsort : ((listing t).2.mergeSort fun a b ↦ Text.le a.1 b.1) =
        ((keptDirectories t).mergeSort fun a b ↦ Text.le a.1 b.1).map
          fun d ↦ (d.1, ofTree d.2) := by
      rw [listing_directories, List.map_mergeSort]
      exact fun _ _ _ _ ↦ rfl
    rw [ofTree, arrange, hsort, List.flatMap_map]

end Sources

/-! ## Directories listed again -/

namespace Tree

/-- The same tree, with its directories listed in other orders. -/
inductive Relisted : Tree → Tree → Prop
  | empty : Relisted .empty .empty
  /-- The entries after a file are listed in another order. -/
  | file (name : Text) (content : Bytes) {rest rest' : Tree} :
    Relisted rest rest' → Relisted (.file name content rest) (.file name content rest')
  /-- The entries of a directory and those after it are listed in other orders. -/
  | dir (name : Text) {inside inside' rest rest' : Tree} :
    Relisted inside inside' → Relisted rest rest' →
      Relisted (.dir name inside rest) (.dir name inside' rest')
  /-- Two entries change places. -/
  | swap (n m : Text) (e e' : Entry) (rest : Tree) :
    Relisted (cons n e (cons m e' rest)) (cons m e' (cons n e rest))
  | trans {t t' t'' : Tree} : Relisted t t' → Relisted t' t'' → Relisted t t''

variable {t t' : Tree} {l : List Text}

theorem node?_cons_cons (n : Text) (e : Entry) (rest : Tree) (name : Text) (l : List Text) :
    (cons n e rest).node? (name :: l) = if n = name then e.node? l else rest.node? (name :: l) := by
  rw [node?_cons, find?_cons, node?_cons]
  split <;> rfl

theorem find?_eq_none_iff {name : Text} : t.find? name = none ↔ t.node? [name] = none := by
  rw [node?_cons]
  cases t.find? name <;> simp

/-- Listing a tree again changes nothing that stands at a location. -/
theorem Relisted.same (h : Relisted t t') (ht : t.Distinct) :
    t'.Distinct ∧ ∀ l, t'.node? l = t.node? l := by
  induction h with
  | empty => exact ⟨ht, fun _ ↦ rfl⟩
  | file name content _ ih =>
    obtain ⟨hrest, hnodes⟩ := ih ht.2
    refine ⟨⟨?_, hrest⟩, fun l ↦ ?_⟩
    · rw [find?_eq_none_iff, hnodes]
      exact find?_eq_none_iff.mp ht.1
    · cases l with
      | nil => rw [node?_nil, node?_nil]
      | cons n l =>
        have hcons := node?_cons_cons name (.file content)
        dsimp only [cons] at hcons
        rw [hcons, hcons, hnodes]
  | dir name _ _ ihInside ih =>
    obtain ⟨hinside, hnodesInside⟩ := ihInside ht.2.1
    obtain ⟨hrest, hnodes⟩ := ih ht.2.2
    refine ⟨⟨?_, hinside, hrest⟩, fun l ↦ ?_⟩
    · rw [find?_eq_none_iff, hnodes]
      exact find?_eq_none_iff.mp ht.1
    · cases l with
      | nil => rw [node?_nil, node?_nil]
      | cons n l =>
        have hcons (inside : Tree) := node?_cons_cons name (.dir inside)
        dsimp only [cons, Entry.node?] at hcons
        rw [hcons, hcons, hnodes, hnodesInside]
  | swap n m e e' rest =>
    obtain ⟨hfree, he, hothers⟩ := distinct_cons.mp ht
    obtain ⟨hfree', he', hrest⟩ := distinct_cons.mp hothers
    rw [find?_cons] at hfree
    -- The two names differ, so either entry is found past the other.
    have hne : m ≠ n := by
      rintro rfl
      simp at hfree
    rw [if_neg hne] at hfree
    refine ⟨distinct_cons.mpr ⟨?_, he', distinct_cons.mpr ⟨hfree, he, hrest⟩⟩, fun l ↦ ?_⟩
    · rw [find?_cons, if_neg (Ne.symm hne), hfree']
    · cases l with
      | nil => rw [node?_nil, node?_nil]
      | cons name l =>
        simp only [node?_cons_cons]
        by_cases hm : m = name
        · rw [if_pos hm, if_neg (hm ▸ Ne.symm hne), if_pos hm]
        · rw [if_neg hm, if_neg hm]
  | trans _ _ ih ih' =>
    obtain ⟨ht', hnodes⟩ := ih ht
    obtain ⟨ht'', hnodes'⟩ := ih' ht'
    exact ⟨ht'', fun l ↦ (hnodes' l).trans (hnodes l)⟩

end Tree

theorem Sources.ofTree_of_relisted {t t' : Tree} (h : t.Relisted t') (ht : t.Distinct) :
    ofTree t' = ofTree t := by
  obtain ⟨ht', hnodes⟩ := h.same ht
  refine eq_of_precedes (pairwise_ofTree ht') (pairwise_ofTree ht) fun l ↦ ?_
  rw [mem_ofTree ht', mem_ofTree ht, hnodes]

/-! ## Walks from a root -/

namespace Store

variable {s : Store} {root : Text} {inside : Tree}

theorem sources_of_entry (hroot : root ≠ [])
    (hentry : s.entry (Path.ofText root) = .ok (.dir inside)) :
    s.sources root = (Sources.ofTree inside).map fun l ↦
      ⟨(Path.ofText root).root, (Path.ofText root).parts ++ l⟩ := by
  rw [sources, if_neg (mt List.isEmpty_iff.mp hroot)]
  dsimp only
  rw [hentry]

/-- **A walk lists the sources below a directory, each once and in the order of their names**,
whatever the order in which the directories are listed:
* the paths are those of the files that have the name of a source and that no directory on the way
  to them hides, and none occurs twice;
* of every directory the sources come first, by their names, and then those of the directories in it
  that are not passed over, directory by directory and by their names;
* a store that differs only in the order of entries has the same sequence. -/
theorem walk_lists_sources (s : Store) (hroot : root ≠ [])
    (hentry : s.entry (Path.ofText root) = .ok (.dir inside)) (hdistinct : inside.Distinct) :
    (∀ p, p ∈ s.sources root ↔ ∃ above name,
        p = ⟨(Path.ofText root).root, (Path.ofText root).parts ++ (above ++ [name])⟩ ∧
          Sources.IsSourceName name ∧
            (∀ directory ∈ above, directory ∉ Sources.skippedDirectories) ∧
              ∃ content, inside.node? (above ++ [name]) = some (.file content)) ∧
      (s.sources root).Nodup ∧
      (s.sources root = (Sources.ofTree inside).map fun l ↦
          ⟨(Path.ofText root).root, (Path.ofText root).parts ++ l⟩) ∧
      (∀ l t, inside.at? l = some (.dir t) → ∃ files directories,
        Sources.Sorted t files directories ∧ Sources.ofTree t =
          files.map ([·]) ++ directories.flatMap fun d ↦ (Sources.ofTree d.2).map (d.1 :: ·)) ∧
      ∀ (s' : Store) (inside' : Tree), s'.entry (Path.ofText root) = .ok (.dir inside') →
        inside.Relisted inside' → s'.sources root = s.sources root := by
  have hsources := sources_of_entry hroot hentry
  refine ⟨fun p ↦ ?_, ?_, hsources, fun l t hat ↦ Sources.exists_sorted (hdistinct.of_at? hat),
    fun s' inside' hentry' hrelisted ↦ ?_⟩
  · rw [hsources, List.mem_map]
    simp only [Sources.mem_ofTree hdistinct, Sources.candidate_iff]
    constructor
    · rintro ⟨l, ⟨⟨above, name, rfl, hname, habove⟩, hfile⟩, rfl⟩
      exact ⟨above, name, rfl, hname, habove, hfile⟩
    · rintro ⟨above, name, rfl, hname, habove, hfile⟩
      exact ⟨above ++ [name], ⟨⟨above, name, rfl, hname, habove⟩, hfile⟩, rfl⟩
  · have hnodup : (Sources.ofTree inside).Nodup :=
      (Sources.pairwise_ofTree hdistinct).imp fun hlm heq ↦ (heq ▸ hlm).asymm (heq ▸ hlm)
    rw [hsources]
    refine hnodup.map fun l m hlm ↦ ?_
    have hparts : (Path.ofText root).parts ++ l = (Path.ofText root).parts ++ m :=
      congrArg Path.parts hlm
    exact List.append_cancel_left hparts
  · rw [sources_of_entry hroot hentry', hsources, Sources.ofTree_of_relisted hrelisted hdistinct]

/-- A store with one directory `w`. -/
private def withTree (t : Tree) : Store := ⟨.dir "w" t .empty, []⟩

/-- A directory with the name of a source, and files that look like sources. -/
private def unsorted : Tree :=
  .dir "dist" (.file "x.js" [] .empty) (.dir "a.js" (.file "c.mjs" [] .empty)
    (.file ".js" [] (.file "b.d.ts" [] (.file "b.ts" [] (.file "B.ts" [] .empty)))))

private def resorted : Tree :=
  .dir "a.js" (.file "c.mjs" [] .empty) (.dir "dist" (.file "x.js" [] .empty)
    (.file ".js" [] (.file "b.d.ts" [] (.file "B.ts" [] (.file "b.ts" [] .empty)))))

/-- One directory in two orders: a source in a directory that has the name of a source itself. -/
theorem walk_lists_sources_unsorted :
    (withTree resorted).sources "/w" = (withTree unsorted).sources "/w" ∧
      (⟨"/", ["w", "a.js", "c.mjs"]⟩ : Path) ∈ (withTree unsorted).sources "/w" ∧
        ((withTree unsorted).sources "/w").Nodup := by
  have hdistinct : unsorted.Distinct := by
    refine ⟨by decide +kernel, ⟨rfl, trivial⟩, by decide +kernel, ⟨rfl, trivial⟩, ?_⟩
    exact ⟨by decide +kernel, by decide +kernel, by decide +kernel, rfl, trivial⟩
  have hentry : (withTree unsorted).entry (Path.ofText "/w") = .ok (.dir unsorted) := rfl
  obtain ⟨hmem, hnodup, -, -, hsame⟩ :=
    walk_lists_sources (withTree unsorted) (by decide) hentry hdistinct
  have hrelisted : unsorted.Relisted resorted :=
    .trans (.swap "dist" "a.js" (.dir (.file "x.js" [] .empty)) (.dir (.file "c.mjs" [] .empty)) _)
      (.dir _ (.file _ _ .empty) (.dir _ (.file _ _ .empty)
        (.file _ _ (.file _ _ (.swap "b.ts" "B.ts" (.file []) (.file []) .empty)))))
  have hname : Sources.IsSourceName "c.mjs" := ⟨⟨"c", ".mjs", by decide, by decide, rfl⟩, by decide⟩
  exact ⟨hsame _ _ rfl hrelisted,
    (hmem _).mpr ⟨["a.js"], "c.mjs", rfl, hname, by decide, [], rfl⟩, hnodup⟩

end Store

end RouteCatalog
