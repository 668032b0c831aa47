import RouteCatalog.Files.Store
import RouteCatalog.Proofs.Files.Tree

/-!
# Following paths

A path is followed through directories only, so where it leads depends on the directories of a store
and on nothing else: it leads to the same location in every store that has these directories
(`follow_of_dirs`, `SameDirectories.locate_iff`). The location is a directory itself, or its
directory exists.

Creating directories adds locations and leaves what is there (`Store.Grows`).
-/

namespace RouteCatalog

namespace Files

variable {t path : Text} {names : List Text} {cause : Cause}

/-! ## Texts that can be paths -/

theorem refusal?_eq_none_iff :
    refusal? t = none ↔ (∀ c ∈ t, isEncodable c = true) ∧ CodePoint.ofNat 0 ∉ t := by
  rw [refusal?]
  split
  · next h => simpa using fun hall ↦ absurd (List.all_eq_true.mpr hall) (by simpa using h)
  · next h =>
    have hall : ∀ c ∈ t, isEncodable c = true := List.all_eq_true.mp (by simpa using h)
    split
    · next hnull => simp [List.contains_iff_mem.mp hnull]
    · next hnull => exact ⟨fun _ ↦ ⟨hall, mt List.contains_iff_mem.mpr hnull⟩, fun _ ↦ rfl⟩

theorem refusal?_of_not_encodable (h : ¬ ∀ c ∈ t, isEncodable c = true) :
    refusal? t = some .unencodable := by
  rw [refusal?, Bool.eq_false_iff.mpr (mt List.all_eq_true.mp h)]
  rfl

theorem refusal?_flatten_eq_none_iff :
    refusal? names.flatten = none ↔ ∀ name ∈ names, refusal? name = none := by
  simp only [refusal?_eq_none_iff, List.mem_flatten]
  constructor
  · rintro ⟨hall, hnull⟩ name hname
    exact ⟨fun c hc ↦ hall c ⟨name, hname, hc⟩, fun hc ↦ hnull ⟨name, hname, hc⟩⟩
  · intro h
    refine ⟨?_, ?_⟩
    · rintro c ⟨name, hname, hc⟩
      exact (h name hname).1 c hc
    · rintro ⟨name, hname, hc⟩
      exact (h name hname).2 hc

theorem check_eq_ok_iff : check t = .ok () ↔ ∀ name ∈ Path.names t, refusal? name = none := by
  rw [check, ← List.findSome?_eq_none_iff]
  cases (Path.names t).findSome? refusal? with
  | none => simp
  | some cause => simp

end Files

namespace Store

open Files

/-- What stands at a location of the store. -/
def node? (s : Store) (l : List Text) : Option Node := s.files.node? l

variable {s s' : Store} {l l' location : List Text} {p : Path}

@[simp] theorem node?_nil (s : Store) : s.node? [] = some .dir := s.files.node?_nil

theorem dir_of_isPrefix (h : s.node? l' ≠ none) (hwithin : l <+: l') (hne : l ≠ l') :
    s.node? l = some .dir := by
  obtain ⟨below, rfl⟩ := hwithin
  by_contra hdir
  exact h (Tree.node?_append hdir (by simpa using hne))

theorem ne_nil_of_not_dir (h : s.node? l ≠ some .dir) : l ≠ [] := by
  rintro rfl
  exact h s.node?_nil

/-- An entry with nothing inside stands where it is put, and everything else is as it was. -/
theorem node?_setAt_of_not_dir {e : Entry} (he : ∀ name rest, e.node? (name :: rest) = none)
    (hdir : s.node? l.dropLast = some .dir) (hnot : s.node? l ≠ some .dir) (m : List Text) :
    Store.node? { s with files := s.files.setAt e l } m =
      if m = l then some e.node else s.node? m := by
  have hnode : Store.node? { s with files := s.files.setAt e l } m =
      if l <+: m then e.node? (m.drop l.length) else s.node? m :=
    Tree.node?_setAt (ne_nil_of_not_dir hnot) hdir m
  rw [hnode]
  by_cases hm : m = l
  · rw [if_pos hm, hm, if_pos (List.prefix_refl l), List.drop_length, Entry.node?_nil]
  · rw [if_neg hm]
    split
    · next hwithin =>
      -- below the entry there is nothing, before as after
      obtain ⟨below, rfl⟩ := hwithin
      have hbelow : below ≠ [] := by simpa using hm
      obtain ⟨name, rest, rfl⟩ := List.exists_cons_of_ne_nil hbelow
      rw [List.drop_left, he, Store.node?, Tree.node?_append hnot hbelow]
    · rfl

theorem dir_dropLast (h : s.node? l ≠ none) : s.node? l.dropLast = some .dir := by
  rcases List.eq_nil_or_concat l with rfl | ⟨above, name, rfl⟩
  · exact s.node?_nil
  · rw [List.concat_eq_append] at h ⊢
    rw [List.dropLast_concat]
    exact dir_of_isPrefix h (List.prefix_append _ _) (by simp)

/-! ## Following -/

theorem at?_of_node? {t : Tree} {node : Node} (h : t.node? l = some node) :
    ∃ e, t.at? l = some e ∧ e.node = node := Option.map_eq_some_iff.mp h

theorem node?_eq_file_iff {content : Bytes} :
    s.node? l = some (.file content) ↔ s.files.at? l = some (.file content) := by
  rw [node?, Tree.node?, Option.map_eq_some_iff]
  constructor
  · rintro ⟨e, hat, he⟩
    cases e with
    | file => cases he; exact hat
    | dir => cases he
  · exact fun h ↦ ⟨_, h, rfl⟩

theorem follow_cons_of_dir {name : Text} {rest : List Text} (h : s.node? location = some .dir)
    (hname : byteLength name ≤ maxNameLength) :
    s.follow location (name :: rest) =
      s.follow (if name = ".." then location.dropLast else location ++ [name]) rest := by
  obtain ⟨e, hat, he⟩ := at?_of_node? h
  cases e with
  | file content => cases he
  | dir inside =>
    rw [follow, hat]
    exact if_neg (Nat.not_lt.mpr hname)

theorem follow_cons_eq_ok {name : Text} {rest : List Text}
    (h : s.follow location (name :: rest) = .ok l) :
    s.node? location = some .dir ∧ byteLength name ≤ maxNameLength ∧
      s.follow (if name = ".." then location.dropLast else location ++ [name]) rest = .ok l := by
  rw [follow] at h
  split at h
  · cases h
  · cases h
  · next inside hat =>
    split at h
    · cases h
    · next hname =>
      refine ⟨?_, Nat.not_lt.mp hname, h⟩
      rw [node?, Tree.node?, hat]
      rfl

theorem follow_of_dirs (hdirs : ∀ m, s.node? m = some .dir → s'.node? m = some .dir)
    {names : List Text} (h : s.follow location names = .ok l) :
    s'.follow location names = .ok l := by
  induction names generalizing location with
  | nil => exact h
  | cons name rest ih =>
    obtain ⟨hdir, hname, hrest⟩ := follow_cons_eq_ok h
    rw [follow_cons_of_dir (hdirs location hdir) hname]
    exact ih hrest

theorem follow_append_eq_ok {names more : List Text}
    (h : s.follow location (names ++ more) = .ok l) :
    ∃ middle, s.follow location names = .ok middle ∧ s.follow middle more = .ok l := by
  induction names generalizing location with
  | nil => exact ⟨location, rfl, h⟩
  | cons name rest ih =>
    obtain ⟨hdir, hname, hrest⟩ := follow_cons_eq_ok h
    obtain ⟨middle, hfirst, hmore⟩ := ih hrest
    exact ⟨middle, by rw [follow_cons_of_dir hdir hname, hfirst], hmore⟩

theorem dir_dropLast_of_follow (hstart : s.node? location.dropLast = some .dir) {names : List Text}
    (h : s.follow location names = .ok l) : s.node? l.dropLast = some .dir := by
  induction names generalizing location with
  | nil => cases h; exact hstart
  | cons name rest ih =>
    obtain ⟨hdir, -, hrest⟩ := follow_cons_eq_ok h
    refine ih ?_ hrest
    split
    · refine dir_dropLast (l := location.dropLast) ?_
      rw [dir_dropLast (by rw [hdir]; simp)]
      simp
    · rwa [List.dropLast_concat]

/-! ## Names that lead down -/

/-- A name that leads from a directory to an entry of it. -/
structure LeadsDown (name : Text) : Prop where
  /-- It does not lead up. -/
  ne_points : name ≠ ".."
  short : byteLength name ≤ maxNameLength
  /-- The system takes it. -/
  taken : refusal? name = none

theorem follow_of_node? {names : List Text} (hnames : ∀ name ∈ names, LeadsDown name)
    (h : s.node? (location ++ names) ≠ none) :
    s.follow location names = .ok (location ++ names) := by
  induction names generalizing location with
  | nil => rw [List.append_nil]; rfl
  | cons name rest ih =>
    obtain ⟨hname, hrest⟩ := List.forall_mem_cons.mp hnames
    -- Something stands below, so the location itself is a directory.
    have hdir : s.node? location = some .dir :=
      dir_of_isPrefix h (List.prefix_append location (name :: rest)) (by simp)
    have happend : location ++ name :: rest = (location ++ [name]) ++ rest := by simp
    rw [follow_cons_of_dir hdir hname.short, if_neg hname.ne_points, happend]
    exact ih hrest (happend ▸ h)

theorem follow_append {names : List Text} (h : s.follow location names = .ok l)
    (more : List Text) : s.follow location (names ++ more) = s.follow l more := by
  induction names generalizing location with
  | nil => cases h; rfl
  | cons name rest ih =>
    obtain ⟨hdir, hname, hrest⟩ := follow_cons_eq_ok h
    rw [List.cons_append, follow_cons_of_dir hdir hname]
    exact ih hrest

theorem eq_append_of_follow {names : List Text} (hnames : ∀ name ∈ names, name ≠ "..")
    (h : s.follow location names = .ok l) : l = location ++ names := by
  induction names generalizing location with
  | nil => cases h; rw [List.append_nil]
  | cons name rest ih =>
    obtain ⟨hname, hrest⟩ := List.forall_mem_cons.mp hnames
    have hfollow := (follow_cons_eq_ok h).2.2
    rw [if_neg hname] at hfollow
    rw [ih hrest hfollow, List.append_assoc, List.singleton_append]

theorem leadsDown_of_follow {names : List Text} (hlocation : ∀ name ∈ location, LeadsDown name)
    (htaken : ∀ name ∈ names, refusal? name = none)
    (h : s.follow location names = .ok l) : ∀ name ∈ l, LeadsDown name := by
  induction names generalizing location with
  | nil => cases h; exact hlocation
  | cons name rest ih =>
    obtain ⟨hname, hrest⟩ := List.forall_mem_cons.mp htaken
    obtain ⟨-, hshort, hfollow⟩ := follow_cons_eq_ok h
    refine ih (fun n hn ↦ ?_) hrest hfollow
    -- A name of two points shortens the location, and what is left of it was there.
    split at hn
    · exact hlocation n (List.dropLast_subset _ hn)
    · next hne =>
      rcases List.mem_append.mp hn with hn | hn
      · exact hlocation n hn
      · rw [List.mem_singleton.mp hn]
        exact ⟨hne, hshort, hname⟩

/-! ## Paths -/

/-- Where a path starts. -/
def start (s : Store) (p : Path) : List Text := if p.isAbsolute then [] else s.directory

theorem locate_eq_ok_iff :
    s.locate p = .ok l ↔
      refusal? p.parts.flatten = none ∧ s.follow (s.start p) p.parts = .ok l := by
  rw [locate]
  cases refusal? p.parts.flatten with
  | some cause => simp
  | none => simp [start]

theorem locate_of_refusal? {cause : Cause} (h : refusal? p.parts.flatten = some cause) :
    s.locate p = .error cause := by
  rw [locate, h]

theorem locate_of_dirs (hdirs : ∀ m, s.node? m = some .dir → s'.node? m = some .dir)
    (hdirectory : s'.directory = s.directory) (h : s.locate p = .ok l) : s'.locate p = .ok l := by
  rw [locate_eq_ok_iff] at h ⊢
  rw [start, hdirectory]
  exact ⟨h.1, follow_of_dirs hdirs h.2⟩

theorem entry_eq_ok_iff {e : Entry} :
    s.entry p = .ok e ↔ ∃ l, s.locate p = .ok l ∧ s.files.at? l = some e := by
  rw [entry]
  cases s.locate p with
  | error cause => simp [bind, Except.bind]
  | ok l =>
    simp only [bind, Except.bind, Except.ok.injEq, exists_eq_left']
    cases s.files.at? l <;> simp

theorem read_eq_ok_iff {content : Bytes} :
    s.read p = .ok content ↔ ∃ l, s.locate p = .ok l ∧ s.node? l = some (.file content) := by
  simp only [node?_eq_file_iff]
  rw [← entry_eq_ok_iff, read]
  split
  · next found hentry => rw [hentry]; simp
  · next hentry => rw [hentry]; simp
  · next hentry => rw [hentry]; simp

theorem number_of_follow {names : List Text} {cause : Cause}
    (h : s.follow location names = .error cause) : cause.number ≠ 0 := by
  induction names generalizing location with
  | nil => cases h
  | cons name rest ih =>
    rw [follow] at h
    split at h
    · cases h
      decide
    · cases h
      decide
    · split at h
      · cases h
        decide
      · exact ih h

theorem read_of_refusal? {cause : Cause} (h : refusal? p.parts.flatten = some cause) :
    s.read p = .error ⟨cause, p.toText, none⟩ := by
  rw [read, entry, locate_of_refusal? h]
  rfl

/-- Every fault in reading comes from the system when the path gets there. -/
theorem fromSystem_of_read (h : refusal? p.parts.flatten = none) {fault : Fault}
    (hread : s.read p = .error fault) : fault.fromSystem = true := by
  rw [read, entry, locate, h] at hread
  dsimp only at hread
  cases hfollow : s.follow (if p.isAbsolute then [] else s.directory) p.parts with
  | error cause =>
    rw [hfollow] at hread
    cases hread
    simpa [Fault.fromSystem] using number_of_follow hfollow
  | ok l =>
    rw [hfollow] at hread
    simp only [bind, Except.bind] at hread
    split at hread
    · cases hread
    · cases hread
      rfl
    · next cause hcause =>
      split at hcause
      · cases hcause
      · cases hcause
        cases hread
        rfl

/-- An absolute path leads straight to what stands at the location of its names. -/
theorem locate_of_node? (habsolute : p.isAbsolute = true)
    (hparts : ∀ name ∈ p.parts, LeadsDown name) (h : s.node? p.parts ≠ none) :
    s.locate p = .ok p.parts := by
  rw [locate_eq_ok_iff, start, if_pos habsolute, refusal?_flatten_eq_none_iff]
  exact ⟨fun name hname ↦ (hparts name hname).taken, follow_of_node? hparts h⟩

/-- An absolute path leads to the location of its names when its directory exists. -/
theorem locate_of_dir (habsolute : p.isAbsolute = true)
    (hparts : ∀ name ∈ p.parts, LeadsDown name) {above : List Text} {name : Text}
    (hp : p.parts = above ++ [name]) (hdir : s.node? above = some .dir) :
    s.locate p = .ok p.parts := by
  have htaken : refusal? p.parts.flatten = none :=
    refusal?_flatten_eq_none_iff.mpr fun part hpart ↦ (hparts part hpart).taken
  rw [hp, List.forall_mem_append, List.forall_mem_singleton] at hparts
  obtain ⟨habove, hname⟩ := hparts
  have hfollow : s.follow [] above = .ok above :=
    follow_of_node? habove (by rw [List.nil_append, hdir]; simp)
  refine locate_eq_ok_iff.mpr ⟨htaken, ?_⟩
  rw [start, if_pos habsolute, hp, follow_append hfollow, follow_cons_of_dir hdir hname.short,
    if_neg hname.ne_points]
  rfl

theorem eq_parts_of_locate (habsolute : p.isAbsolute = true)
    (hparts : ∀ name ∈ p.parts, name ≠ "..") (h : s.locate p = .ok l) : l = p.parts := by
  have hfollow := (locate_eq_ok_iff.mp h).2
  rw [start, if_pos habsolute] at hfollow
  exact eq_append_of_follow hparts hfollow

theorem leadsDown_of_locate (hdirectory : ∀ name ∈ s.directory, LeadsDown name)
    (h : s.locate p = .ok l) : ∀ name ∈ l, LeadsDown name := by
  obtain ⟨htaken, hfollow⟩ := locate_eq_ok_iff.mp h
  refine leadsDown_of_follow (fun name hname ↦ ?_) (refusal?_flatten_eq_none_iff.mp htaken) hfollow
  rw [start] at hname
  split at hname
  · cases hname
  · exact hdirectory name hname

/-- The directory of the location that a path with a name leads to exists. -/
theorem dir_dropLast_of_locate (hne : p.parts ≠ []) (h : s.locate p = .ok l) :
    s.node? l.dropLast = some .dir := by
  have hfollow := (locate_eq_ok_iff.mp h).2
  obtain ⟨name, rest, hparts⟩ := List.exists_cons_of_ne_nil hne
  rw [hparts] at hfollow
  have hstart := (follow_cons_eq_ok hfollow).1
  exact dir_dropLast_of_follow (dir_dropLast (by rw [hstart]; simp)) hfollow

/-- A path with a name leads where its parent leads, and on by the name. -/
theorem exists_of_locate (hne : p.parts ≠ []) (h : s.locate p = .ok l) :
    ∃ above, s.locate p.parent = .ok above ∧ s.node? above = some .dir ∧
      (p.name ≠ ".." → l = above ++ [p.name]) := by
  obtain ⟨htaken, hfollow⟩ := locate_eq_ok_iff.mp h
  have hname : p.name = p.parts.getLast hne := by
    rw [Path.name, List.getLast?_eq_some_getLast hne]
    rfl
  rw [← List.dropLast_append_getLast hne, ← hname] at hfollow
  obtain ⟨above, hparent, hlast⟩ := follow_append_eq_ok hfollow
  refine ⟨above, locate_eq_ok_iff.mpr ⟨?_, hparent⟩, (follow_cons_eq_ok hlast).1, fun hproper ↦ ?_⟩
  · rw [refusal?_flatten_eq_none_iff] at htaken ⊢
    exact fun name hmem ↦ htaken name (List.dropLast_subset _ hmem)
  · exact eq_append_of_follow (List.forall_mem_singleton.mpr hproper) hlast

theorem dir_of_locate_points (hne : p.parts ≠ []) (hname : p.name = "..") (h : s.locate p = .ok l) :
    s.node? l = some .dir := by
  have hlast : p.parts.getLast hne = ".." := by
    rw [← hname, Path.name, List.getLast?_eq_some_getLast hne]
    rfl
  have hfollow := (locate_eq_ok_iff.mp h).2
  rw [← List.dropLast_append_getLast hne, hlast] at hfollow
  obtain ⟨above, -, hup⟩ := follow_append_eq_ok hfollow
  obtain ⟨hdir, -, hup⟩ := follow_cons_eq_ok hup
  rw [if_pos rfl] at hup
  obtain rfl := Except.ok.inj hup
  exact dir_dropLast (by rw [hdir]; simp)

/-! ## Stores with the same directories -/

/-- The same directories, and the same working directory; so every path leads to the same place. -/
structure SameDirectories (s s' : Store) : Prop where
  directory : s'.directory = s.directory
  dir_iff : ∀ m, s'.node? m = some .dir ↔ s.node? m = some .dir

namespace SameDirectories

variable {s s' s'' : Store}

theorem refl (s : Store) : SameDirectories s s := ⟨rfl, fun _ ↦ Iff.rfl⟩

theorem trans (h : SameDirectories s s') (h' : SameDirectories s' s'') : SameDirectories s s'' :=
  ⟨h'.directory.trans h.directory, fun m ↦ (h'.dir_iff m).trans (h.dir_iff m)⟩

theorem locate_iff (h : SameDirectories s s') {q : Path} {l : List Text} :
    s'.locate q = .ok l ↔ s.locate q = .ok l :=
  ⟨locate_of_dirs (fun m ↦ (h.dir_iff m).mp) h.directory.symm,
    locate_of_dirs (fun m ↦ (h.dir_iff m).mpr) h.directory⟩

end SameDirectories

/-! ## Removing a file -/

variable {content : Bytes}

/-- The store without the file at a location. -/
def withoutFile (s : Store) (l : List Text) : Store := { s with files := s.files.eraseAt l }

theorem node?_withoutFile (hfile : s.node? l = some (.file content)) (m : List Text) :
    (s.withoutFile l).node? m = if m = l then none else s.node? m := by
  have hnot : s.node? l ≠ some .dir := by
    rw [hfile]
    simp
  have hdir : s.node? l.dropLast = some .dir := dir_dropLast (by rw [hfile]; simp)
  refine (Tree.node?_eraseAt (ne_nil_of_not_dir hnot) hdir m).trans ?_
  by_cases hm : m = l
  · rw [if_pos hm, if_pos (hm ▸ List.prefix_refl l)]
  · rw [if_neg hm]
    split
    · next hwithin =>
      -- below a file there is nothing
      obtain ⟨below, rfl⟩ := hwithin
      exact (Tree.node?_append hnot (by simpa using hm)).symm
    · rfl

theorem sameDirectories_withoutFile (hfile : s.node? l = some (.file content)) :
    SameDirectories s (s.withoutFile l) := by
  refine ⟨rfl, fun m ↦ ?_⟩
  rw [node?_withoutFile hfile]
  split
  · next heq => simp [heq, hfile]
  · rfl

theorem remove_of_file (hp : s.locate p = .ok l) (hfile : s.node? l = some (.file content)) :
    s.remove p = .ok (s.withoutFile l) := by
  rw [remove, hp]
  dsimp only
  rw [node?_eq_file_iff.mp hfile]
  rfl

/-! ## Creating directories -/

theorem ensureDirectory_of_dir (h : s.locate p = .ok l) (hdir : s.node? l = some .dir) :
    s.ensureDirectory p = (s, none) := by
  obtain ⟨e, hat, he⟩ := at?_of_node? hdir
  cases e with
  | file content => cases he
  | dir inside =>
    have hcreate : s.createDirectory p = .error .alreadyExists := by
      rw [createDirectory, h]
      simp only [bind, Except.bind]
      rw [hat]
    have hdirectory : s.isDirectory p = true := by
      rw [isDirectory, entry_eq_ok_iff.mpr ⟨l, h, hat⟩]
    rw [ensureDirectory]
    cases hreverse : p.parts.reverse with
    | nil => rfl
    | cons name above =>
      have hp : (⟨p.root, (name :: above).reverse⟩ : Path) = p := by
        rw [← hreverse, List.reverse_reverse]
      rw [ensureDirectoryAt, hp, hcreate]
      dsimp only
      rw [hdirectory, if_pos rfl]

theorem ensureDirectory_of_free (hne : p.parts ≠ []) (h : s.locate p = .ok l)
    (hfree : s.node? l = none) :
    s.ensureDirectory p = ({ s with files := s.files.setAt (.dir .empty) l }, none) := by
  have hat : s.files.at? l = none := Option.map_eq_none_iff.mp hfree
  have hcreate : s.createDirectory p =
      .ok { s with files := s.files.setAt (.dir .empty) l } := by
    rw [createDirectory, h]
    simp only [bind, Except.bind]
    rw [hat]
  rw [ensureDirectory]
  cases hreverse : p.parts.reverse with
  | nil => exact absurd (List.reverse_eq_nil_iff.mp hreverse) hne
  | cons name above =>
    have hp : (⟨p.root, (name :: above).reverse⟩ : Path) = p := by
      rw [← hreverse, List.reverse_reverse]
    rw [ensureDirectoryAt, hp, hcreate]

/-- Only directories were added, in places that were free. -/
structure Grows (s s' : Store) : Prop where
  directory : s'.directory = s.directory
  kept : ∀ ⦃l node⦄, s.node? l = some node → s'.node? l = some node
  /-- What is new is a directory. -/
  added : ∀ ⦃l⦄, s.node? l = none → s'.node? l = none ∨ s'.node? l = some .dir
  distinct : s.files.Distinct → s'.files.Distinct

theorem Grows.refl (s : Store) : Grows s s := ⟨rfl, fun _ _ h ↦ h, fun _ h ↦ .inl h, id⟩

theorem Grows.trans {s'' : Store} (h : Grows s s') (h' : Grows s' s'') : Grows s s'' where
  directory := h'.directory.trans h.directory
  kept _ _ hl := h'.kept (h.kept hl)
  added l hl := by
    rcases h.added hl with hnone | hdir
    · exact h'.added hnone
    · exact .inr (h'.kept hdir)
  distinct hs := h'.distinct (h.distinct hs)

theorem Grows.file_iff (h : Grows s s') {content : Bytes} :
    s'.node? l = some (.file content) ↔ s.node? l = some (.file content) := by
  refine ⟨fun hfile ↦ ?_, fun hfile ↦ h.kept hfile⟩
  cases hnode : s.node? l with
  | none =>
    rcases h.added hnode with hnone | hdir
    · rw [hnone] at hfile
      cases hfile
    · rw [hdir] at hfile
      cases hfile
  | some node =>
    rw [h.kept hnode] at hfile
    exact hfile

theorem grows_createDirectory (h : s.createDirectory p = .ok s') : Grows s s' := by
  rw [createDirectory] at h
  cases hlocate : s.locate p with
  | error cause => rw [hlocate] at h; cases h
  | ok l =>
    rw [hlocate] at h
    simp only [bind, Except.bind] at h
    cases hat : s.files.at? l with
    | some e => rw [hat] at h; cases h
    | none =>
      rw [hat] at h
      cases h
      have hfree : s.node? l = none := by rw [node?, Tree.node?, hat]; rfl
      by_cases hdir : s.node? l.dropLast = some .dir
      · have hnode := node?_setAt_of_not_dir (e := .dir .empty) (Tree.node?_cons .empty) hdir
          (by rw [hfree]; simp)
        refine ⟨rfl, fun m node hm ↦ ?_, fun m hm ↦ ?_, fun hdistinct ↦ ?_⟩
        · rw [hnode, if_neg, hm]
          rintro rfl
          rw [hfree] at hm
          cases hm
        · rw [hnode]
          split
          · exact .inr rfl
          · exact .inl hm
        · exact hdistinct.setAt (fun _ heq ↦ by cases heq; trivial) l
      · rw [Tree.setAt_of_not_dir hdir]
        exact .refl s

theorem grows_ensureDirectoryAt {root : Text} {parts : List Text} {fault : Option Files.Fault}
    (h : s.ensureDirectoryAt root parts = (s', fault)) : Grows s s' := by
  -- What was missing above is created before the directory is tried once more.
  induction parts generalizing s s' fault with
  | nil => cases h; exact .refl s
  | cons name above ih =>
    rw [ensureDirectoryAt] at h
    split at h
    · next s₁ hcreate =>
      cases h
      exact grows_createDirectory hcreate
    · split at h
      · next s₁ fault₁ habove =>
        cases h
        exact ih habove
      · next s₁ habove =>
        split at h
        · next s₂ hcreate =>
          cases h
          exact (ih habove).trans (grows_createDirectory hcreate)
        · cases h
          exact ih habove
    · cases h
      exact .refl s

/-- Making sure that a directory exists only adds directories, also when it fails. -/
theorem grows_ensureDirectory {fault : Option Files.Fault}
    (h : s.ensureDirectory p = (s', fault)) : Grows s s' := grows_ensureDirectoryAt h

end Store

end RouteCatalog
