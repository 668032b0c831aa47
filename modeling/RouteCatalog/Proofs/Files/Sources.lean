import Mathlib.Data.List.Nodup
import RouteCatalog.Files.Sources
import RouteCatalog.Proofs.Files.Tree

/-!
# Which files are sources, and in which order

The sources of a tree are the files with the name of a source that stand in no directory that is
passed over (`Sources.mem_ofTree`). They are in strict order (`Sources.pairwise_ofTree`): of two
files in one directory the one with the lesser name goes first, a file goes before what stands in
the directories beside it, and these go by their names.

A strict order leaves no choice, so trees with the same source files have the same sequence of them
(`Sources.eq_of_precedes`), whatever else they hold and however their directories are listed.
-/

namespace RouteCatalog.Sources

variable {t : Tree} {name : Text} {l m : List Text}

/-! ## Which files -/

/-- The location of a source file, as far as its names tell. -/
def Candidate : List Text → Prop
  | [] => False
  | [name] => isSource name = true
  | name :: rest => skippedDirectories.contains name = false ∧ Candidate rest

theorem candidate_cons_cons {next : Text} {rest : List Text} :
    Candidate (name :: next :: rest) ↔
      skippedDirectories.contains name = false ∧ Candidate (next :: rest) := Iff.rfl

theorem Candidate.isSource_last (h : Candidate l) :
    ∃ name, l.getLast? = some name ∧ isSource name = true := by
  induction l with
  | nil => exact h.elim
  | cons name rest ih =>
    cases rest with
    | nil => exact ⟨name, rfl, h⟩
    | cons next rest =>
      rw [List.getLast?_cons_cons]
      exact ih h.2

theorem listing_file (content : Bytes) (rest : Tree) :
    listing (.file name content rest) =
      (if isSource name then name :: (listing rest).1 else (listing rest).1, (listing rest).2) :=
  rfl

theorem listing_dir (inside rest : Tree) :
    listing (.dir name inside rest) =
      ((listing rest).1, if skippedDirectories.contains name then (listing rest).2
        else (name, ofTree inside) :: (listing rest).2) := rfl

theorem mem_listing_files (ht : t.Distinct) :
    name ∈ (listing t).1 ↔
      isSource name = true ∧ ∃ content, t.find? name = some (.file content) := by
  induction t with
  | empty => simp [listing, Tree.find?]
  | file n content rest ih =>
    obtain ⟨hfree, hrest⟩ := ht
    rw [listing_file]
    dsimp only
    by_cases hn : n = name
    · subst hn
      have hnot : n ∉ (listing rest).1 := by
        rw [ih hrest, hfree]
        simp
      split <;> simp_all [Tree.find?]
    · have hne : name ≠ n := Ne.symm hn
      rw [Tree.find?, if_neg hn]
      split
      · rw [List.mem_cons, ih hrest]
        simp [hne]
      · exact ih hrest
  | dir n inside rest _ ih =>
    obtain ⟨hfree, -, hrest⟩ := ht
    rw [listing_dir, ih hrest, Tree.find?]
    by_cases hn : n = name
    · subst hn
      simp [hfree]
    · rw [if_neg hn]

/-- The directories that are not passed over, in the order of the entries. -/
def keptDirectories : Tree → List (Text × Tree)
  | .empty => []
  | .file _ _ rest => keptDirectories rest
  | .dir name inside rest =>
    if skippedDirectories.contains name then keptDirectories rest
    else (name, inside) :: keptDirectories rest

theorem listing_directories (t : Tree) :
    (listing t).2 = (keptDirectories t).map fun d ↦ (d.1, ofTree d.2) := by
  induction t with
  | empty => rfl
  | file name content rest ih => exact ih
  | dir name inside rest _ ih =>
    rw [listing_dir, keptDirectories]
    dsimp only
    split
    · exact ih
    · rw [ih, List.map_cons]

theorem mem_keptDirectories (ht : t.Distinct) {inside : Tree} :
    (name, inside) ∈ keptDirectories t ↔
      skippedDirectories.contains name = false ∧ t.find? name = some (.dir inside) := by
  induction t with
  | empty => simp [keptDirectories, Tree.find?]
  | file n content rest ih =>
    rw [keptDirectories, ih ht.2, Tree.find?]
    by_cases hn : n = name
    · subst hn
      simp [ht.1]
    · rw [if_neg hn]
  | dir n found rest _ ih =>
    rw [keptDirectories, Tree.find?]
    have hrest := ih ht.2.2
    by_cases hn : n = name
    · subst hn
      have hnot : (n, inside) ∉ keptDirectories rest := by
        rw [hrest, ht.1]
        simp
      split
      · next hskipped => simp_all
      · next hkept => simp_all [eq_comm]
    · have hne : name ≠ n := Ne.symm hn
      rw [if_neg hn]
      split
      · exact hrest
      · rw [List.mem_cons, hrest]
        simp [hne]

theorem mem_listing_directories (ht : t.Distinct) {below : List (List Text)} :
    (name, below) ∈ (listing t).2 ↔ skippedDirectories.contains name = false ∧
      ∃ inside, t.find? name = some (.dir inside) ∧ below = ofTree inside := by
  rw [listing_directories, List.mem_map]
  constructor
  · rintro ⟨⟨n, inside⟩, hmem, heq⟩
    cases heq
    obtain ⟨hkept, hfind⟩ := (mem_keptDirectories ht).mp hmem
    exact ⟨hkept, inside, hfind, rfl⟩
  · rintro ⟨hkept, inside, hfind, rfl⟩
    exact ⟨(name, inside), (mem_keptDirectories ht).mpr ⟨hkept, hfind⟩, rfl⟩

theorem mem_arrange {files : List Text} {directories : List (Text × List (List Text))} :
    l ∈ arrange files directories ↔ (∃ name ∈ files, l = [name]) ∨
      ∃ name below, (name, below) ∈ directories ∧ ∃ inner ∈ below, l = name :: inner := by
  rw [arrange, List.mem_append, List.mem_map, List.mem_flatMap]
  simp only [List.mem_mergeSort, Prod.exists, List.mem_map, eq_comm (b := l)]

/-- **The sources are the source files in directories that are not passed over.** -/
theorem mem_ofTree (ht : t.Distinct) :
    l ∈ ofTree t ↔ Candidate l ∧ ∃ content, t.node? l = some (.file content) := by
  induction l generalizing t with
  | nil =>
    rw [ofTree, mem_arrange]
    simp [Candidate]
  | cons name rest ih =>
    rw [ofTree, mem_arrange]
    -- A location of one name is among the files; a longer one comes from a directory, and the
    -- induction takes it on from there.
    have hfiles : (∃ n ∈ (listing t).1, name :: rest = [n]) ↔
        rest = [] ∧ isSource name = true ∧ ∃ content, t.find? name = some (.file content) := by
      constructor
      · rintro ⟨n, hn, heq⟩
        cases heq
        exact ⟨rfl, (mem_listing_files ht).mp hn⟩
      · rintro ⟨rfl, h⟩
        exact ⟨name, (mem_listing_files ht).mpr h, rfl⟩
    have hdirectories : (∃ n below, (n, below) ∈ (listing t).2 ∧
        ∃ inner ∈ below, name :: rest = n :: inner) ↔
        skippedDirectories.contains name = false ∧
          ∃ inside, t.find? name = some (.dir inside) ∧ Candidate rest ∧
            ∃ content, inside.node? rest = some (.file content) := by
      constructor
      · rintro ⟨n, below, hmem, inner, hinner, heq⟩
        cases heq
        obtain ⟨hkept, inside, hfind, rfl⟩ := (mem_listing_directories ht).mp hmem
        exact ⟨hkept, inside, hfind, (ih (ht.of_find? hfind)).mp hinner⟩
      · rintro ⟨hkept, inside, hfind, hrest⟩
        exact ⟨name, ofTree inside, (mem_listing_directories ht).mpr ⟨hkept, inside, hfind, rfl⟩,
          rest, (ih (ht.of_find? hfind)).mpr hrest, rfl⟩
    rw [hfiles, hdirectories, Tree.node?_cons]
    cases rest with
    | nil =>
      cases t.find? name with
      | none => simp
      | some e => cases e <;> simp [Candidate, Entry.node?]
    | cons next rest =>
      rw [candidate_cons_cons]
      cases t.find? name with
      | none => simp
      | some e => cases e <;> simp [Entry.node?, and_assoc]

/-! ## Their order -/

/-- The order of the sources of a tree. -/
def Precedes : List Text → List Text → Prop
  | [a], [b] => Text.le a b = true ∧ a ≠ b
  | [_], _ :: _ :: _ => True
  | a :: b :: l, c :: d :: m => Text.le a c = true ∧ a ≠ c ∨ a = c ∧ Precedes (b :: l) (d :: m)
  | _, _ => False

theorem Precedes.asymm (h : Precedes l m) : ¬Precedes m l := by
  induction l generalizing m with
  | nil => cases h
  | cons a l ih =>
    cases l with
    | nil =>
      cases m with
      | nil => cases h
      | cons c m =>
        cases m with
        | nil => exact fun h' ↦ h.2 (Text.le_antisymm h.1 h'.1)
        | cons d m => exact fun h' ↦ h'
    | cons b l =>
      cases m with
      | nil => cases h
      | cons c m =>
        cases m with
        | nil => cases h
        | cons d m =>
          rintro (⟨hle', hne'⟩ | ⟨heq', h'⟩)
          · rcases h with ⟨hle, hne⟩ | ⟨heq, -⟩
            · exact hne (Text.le_antisymm hle hle')
            · exact hne' heq.symm
          · rcases h with ⟨-, hne⟩ | ⟨-, h⟩
            · exact hne heq'.symm
            · exact ih h h'

theorem eq_of_precedes {ls ms : List (List Text)} (hls : ls.Pairwise Precedes)
    (hms : ms.Pairwise Precedes) (h : ∀ l, l ∈ ls ↔ l ∈ ms) : ls = ms := by
  have hnodup {ls : List (List Text)} (hls : ls.Pairwise Precedes) : ls.Nodup :=
    hls.imp fun hlm heq ↦ (heq ▸ hlm).asymm (heq ▸ hlm)
  have hperm : ls.Perm ms :=
    (List.perm_ext_iff_of_nodup (hnodup hls) (hnodup hms)).mpr h
  -- The order is asymmetric, so a sequence in this order has no other permutation in it.
  exact hperm.eq_of_pairwise (fun l m _ _ hlm hml ↦ absurd hml hlm.asymm) hls hms

/-- Sorting by names that differ leaves no two that could change places. -/
theorem pairwise_mergeSort_of_nodup {α : Type} (key : α → Text) {as : List α}
    (h : (as.map key).Nodup) :
    (as.mergeSort fun a b ↦ Text.le (key a) (key b)).Pairwise fun a b ↦
      Text.le (key a) (key b) = true ∧ key a ≠ key b := by
  have hsorted : (as.mergeSort fun a b ↦ Text.le (key a) (key b)).Pairwise fun a b ↦
      Text.le (key a) (key b) = true := by
    refine @List.pairwise_mergeSort α (fun a b ↦ Text.le (key a) (key b))
      (fun a b c ↦ Text.le_trans) (fun a b ↦ ?_) as
    rw [Bool.or_eq_true]
    exact Text.le_total (key a) (key b)
  have hperm := (List.mergeSort_perm as fun a b ↦ Text.le (key a) (key b)).map key
  exact hsorted.and (List.pairwise_map.mp (hperm.nodup_iff.mpr h))

theorem precedes_cons_cons {a c : Text} (hl : l ≠ []) (hm : m ≠ []) :
    Precedes (a :: l) (c :: m) ↔ Text.le a c = true ∧ a ≠ c ∨ a = c ∧ Precedes l m := by
  obtain ⟨b, l, rfl⟩ := List.exists_cons_of_ne_nil hl
  obtain ⟨d, m, rfl⟩ := List.exists_cons_of_ne_nil hm
  rfl

theorem pairwise_arrange {files : List Text} {directories : List (Text × List (List Text))}
    (hfiles : files.Nodup) (hnames : (directories.map Prod.fst).Nodup)
    (hbelow : ∀ d ∈ directories, d.2.Pairwise Precedes ∧ [] ∉ d.2) :
    (arrange files directories).Pairwise Precedes := by
  have hne {d : Text × List (List Text)} (hd : d ∈ directories) {l : List Text} (hl : l ∈ d.2) :
      l ≠ [] := fun hnil ↦ (hbelow d hd).2 (hnil ▸ hl)
  have hsorted := pairwise_mergeSort_of_nodup Prod.fst hnames
  rw [arrange, List.pairwise_append, List.pairwise_map, List.pairwise_flatMap]
  -- Two files; two sources of one directory; of two directories; a file and one of a directory.
  refine ⟨?_, ⟨fun d hd ↦ ?_, ?_⟩, fun a ha b hb ↦ ?_⟩
  · exact pairwise_mergeSort_of_nodup id (by rwa [List.map_id])
  · rw [List.mem_mergeSort] at hd
    rw [List.pairwise_map]
    refine (hbelow d hd).1.imp_of_mem fun hl hm hlm ↦ ?_
    exact (precedes_cons_cons (hne hd hl) (hne hd hm)).mpr (.inr ⟨rfl, hlm⟩)
  · refine hsorted.imp_of_mem fun {d d'} hd hd' hlt l hl m hm ↦ ?_
    obtain ⟨l', hl', rfl⟩ := List.mem_map.mp hl
    obtain ⟨m', hm', rfl⟩ := List.mem_map.mp hm
    exact (precedes_cons_cons (hne (List.mem_mergeSort.mp hd) hl')
      (hne (List.mem_mergeSort.mp hd') hm')).mpr (.inl hlt)
  · obtain ⟨name, -, rfl⟩ := List.mem_map.mp ha
    obtain ⟨d, hd, hb⟩ := List.mem_flatMap.mp hb
    obtain ⟨l, hl, rfl⟩ := List.mem_map.mp hb
    obtain ⟨c, l, rfl⟩ := List.exists_cons_of_ne_nil (hne (List.mem_mergeSort.mp hd) hl)
    trivial

theorem nodup_listing (ht : t.Distinct) :
    (listing t).1.Nodup ∧ ((listing t).2.map Prod.fst).Nodup := by
  -- A name that is met again would be found in the rest, where it is not.
  induction t with
  | empty => exact ⟨List.nodup_nil, List.nodup_nil⟩
  | file name content rest ih =>
    obtain ⟨hfiles, hdirectories⟩ := ih ht.2
    rw [listing_file]
    refine ⟨?_, hdirectories⟩
    split
    · refine List.nodup_cons.mpr ⟨fun hmem ↦ ?_, hfiles⟩
      obtain ⟨-, content, hfind⟩ := (mem_listing_files ht.2).mp hmem
      rw [ht.1] at hfind
      cases hfind
    · exact hfiles
  | dir name inside rest _ ih =>
    obtain ⟨hfiles, hdirectories⟩ := ih ht.2.2
    rw [listing_dir]
    refine ⟨hfiles, ?_⟩
    dsimp only
    split
    · exact hdirectories
    · refine List.nodup_cons.mpr ⟨fun hmem ↦ ?_, hdirectories⟩
      obtain ⟨⟨n, below⟩, hbelow, hn⟩ := List.mem_map.mp hmem
      obtain ⟨-, inside, hfind, -⟩ := (mem_listing_directories ht.2.2).mp hbelow
      dsimp only at hn
      rw [hn] at hfind
      rw [ht.1] at hfind
      cases hfind

/-- **The sources are in strict order.** -/
theorem pairwise_ofTree (ht : t.Distinct) : (ofTree t).Pairwise Precedes := by
  have hbelow (t : Tree) (ht : t.Distinct) :
      ∀ d ∈ (listing t).2, d.2.Pairwise Precedes ∧ [] ∉ d.2 := by
    induction t with
    | empty => exact fun d hd ↦ absurd hd List.not_mem_nil
    | file name content rest ih => exact ih ht.2
    | dir name inside rest ihInside ih =>
      have hinside : (ofTree inside).Pairwise Precedes ∧ [] ∉ ofTree inside := by
        refine ⟨pairwise_arrange (nodup_listing ht.2.1).1 (nodup_listing ht.2.1).2
          (ihInside ht.2.1), fun hnil ↦ ?_⟩
        exact ((mem_ofTree ht.2.1).mp hnil).1
      rw [listing_dir]
      dsimp only
      split
      · exact ih ht.2.2
      · exact List.forall_mem_cons.mpr ⟨hinside, ih ht.2.2⟩
  exact pairwise_arrange (nodup_listing ht).1 (nodup_listing ht).2 (hbelow t ht)

end RouteCatalog.Sources
