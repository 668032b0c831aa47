import RouteCatalog.Proofs.Files.Path
import RouteCatalog.Proofs.Files.Sources
import RouteCatalog.Proofs.Files.Store

/-!
# Sources below a directory

The files of a system have names that it accepts, different ones in each directory, and sizes that
it can count (`Store.Sound`). In such a store the sources below a directory are the source files
there, each by the path to its location, in strict order (`Store.exists_sources`). So two stores
with the same source files below a directory have the same sequence of them
(`Store.sources_eq_of_files`).
-/

namespace RouteCatalog

/-! ## Sound stores -/

/-- A name that a system accepts for a file. -/
structure Path.IsFileName (name : Text) : Prop where
  isPart : Path.IsPart name
  leadsDown : Store.LeadsDown name
  /-- It is a text that a system can store. -/
  unsplit : name.Unsplit

/-- The names of a tree are accepted, those in one directory differ, and no file is too long. -/
def Tree.Sound : Tree → Prop
  | .empty => True
  | .file name content rest =>
    Path.IsFileName name ∧ content.length < 0x8000000000000000 ∧ rest.find? name = none ∧ rest.Sound
  | .dir name inside rest =>
    Path.IsFileName name ∧ inside.Sound ∧ rest.find? name = none ∧ rest.Sound

/-- A store as a system has it. -/
structure Store.Sound (s : Store) : Prop where
  files : s.files.Sound
  /-- The working directory exists. -/
  directory : s.node? s.directory = some .dir

namespace Tree

variable {t : Tree} {l : List Text}

theorem Sound.distinct (h : t.Sound) : t.Distinct := by
  induction t with
  | empty => trivial
  | file name content rest ih => exact ⟨h.2.2.1, ih h.2.2.2⟩
  | dir name inside rest ihInside ih => exact ⟨h.2.2.1, ihInside h.2.1, ih h.2.2.2⟩

theorem sound_cons {name : Text} {e : Entry} {rest : Tree} :
    (cons name e rest).Sound ↔ (Path.IsFileName name ∧
      (∀ content, e = .file content → content.length < 0x8000000000000000) ∧
        ∀ inside, e = .dir inside → inside.Sound) ∧ rest.find? name = none ∧ rest.Sound := by
  cases e <;> simp [cons, Sound, and_assoc]

theorem Sound.of_find? (h : t.Sound) {name : Text} {e : Entry} (hfind : t.find? name = some e) :
    Path.IsFileName name ∧ (∀ content, e = .file content → content.length < 0x8000000000000000) ∧
      ∀ inside, e = .dir inside → inside.Sound := by
  induction t using consInduction with
  | empty => cases hfind
  | cons n found rest ih =>
    obtain ⟨hentry, -, hrest⟩ := sound_cons.mp h
    rw [find?_cons] at hfind
    split at hfind
    · next hn =>
      cases hfind
      exact hn ▸ hentry
    · exact ih hrest hfind

/-- The names on the way to an entry are accepted, and a file is not too long. -/
theorem Sound.of_node? (h : t.Sound) {node : Node} (hnode : t.node? l = some node) :
    (∀ name ∈ l, Path.IsFileName name) ∧
      ∀ content, node = .file content → content.length < 0x8000000000000000 := by
  induction l generalizing t with
  | nil =>
    rw [node?_nil] at hnode
    cases hnode
    exact ⟨by simp, fun _ heq ↦ by cases heq⟩
  | cons name rest ih =>
    rw [node?_cons] at hnode
    obtain ⟨e, hfind, he⟩ := Option.bind_eq_some_iff.mp hnode
    obtain ⟨hname, hlength, hinside⟩ := h.of_find? hfind
    cases e with
    | file content =>
      cases rest with
      | nil =>
        cases he
        refine ⟨List.forall_mem_singleton.mpr hname, fun _ heq ↦ ?_⟩
        cases heq
        exact hlength content rfl
      | cons => cases he
    | dir inside =>
      obtain ⟨hrest, hfile⟩ := ih (hinside inside rfl) he
      exact ⟨List.forall_mem_cons.mpr ⟨hname, hrest⟩, hfile⟩

theorem node?_append_of_at? {inside : Tree} (h : t.at? l = some (.dir inside)) (m : List Text) :
    t.node? (l ++ m) = inside.node? m := by
  induction l generalizing t with
  | nil =>
    cases h
    rfl
  | cons name rest ih =>
    rw [List.cons_append, node?_cons]
    cases rest with
    | nil =>
      have hfind : t.find? name = some (.dir inside) := h
      rw [hfind]
      rfl
    | cons next rest =>
      rw [at?] at h
      split at h
      · next found hfind =>
        rw [hfind]
        exact ih h
      · cases h
      · simp

theorem Distinct.of_at? (ht : t.Distinct) {inside : Tree} (h : t.at? l = some (.dir inside)) :
    inside.Distinct := by
  induction l generalizing t with
  | nil =>
    cases h
    exact ht
  | cons name rest ih =>
    cases rest with
    | nil => exact ht.of_find? h
    | cons next rest =>
      rw [at?] at h
      split at h
      · next found hfind => exact ih (ht.of_find? hfind) h
      · cases h
      · simp

end Tree

namespace Store

variable {s s' : Store} {q : Path} {l : List Text}

theorem Sound.isFileName (h : s.Sound) {node : Node} (hnode : s.node? l = some node) :
    ∀ name ∈ l, Path.IsFileName name := (h.files.of_node? hnode).1

/-! ## Sources -/

/-- A path from the root whose names are parts and lead down. -/
structure Straight (q : Path) : Prop where
  root : q.root = "/"
  parts : ∀ name ∈ q.parts, Path.IsPart name
  /-- No name leads up. -/
  ne_points : ∀ name ∈ q.parts, name ≠ ".."

theorem Straight.isAbsolute (h : Straight q) : q.isAbsolute = true := by
  rw [Path.isAbsolute, h.root]
  rfl

/-- **The sources below a directory are the source files there, in strict order.** -/
theorem exists_sources (hq : Straight q) (hdistinct : s.files.Distinct)
    (hfiles : ∀ l content, s.node? l = some (.file content) → ∀ name ∈ l, LeadsDown name) :
    ∃ ls : List (List Text), s.sources q.toText = ls.map (fun l ↦ ⟨q.root, q.parts ++ l⟩) ∧
      ls.Pairwise Sources.Precedes ∧ ∀ l, l ∈ ls ↔
        Sources.Candidate l ∧ ∃ content, s.node? (q.parts ++ l) = some (.file content) := by
  have hempty : q.toText.isEmpty = false := by
    obtain ⟨root, parts⟩ := q
    obtain rfl : root = "/" := hq.root
    rfl
  rw [sources, hempty, if_neg (by decide)]
  dsimp only
  rw [Path.ofText_toText (.inr (.inl hq.root)) hq.parts]
  split
  · next inside hentry =>
    obtain ⟨location, hlocate, hat⟩ := entry_eq_ok_iff.mp hentry
    rw [eq_parts_of_locate hq.isAbsolute hq.ne_points hlocate] at hat
    have hinside := hdistinct.of_at? hat
    refine ⟨Sources.ofTree inside, rfl, Sources.pairwise_ofTree hinside, fun l ↦ ?_⟩
    rw [Sources.mem_ofTree hinside, node?, Tree.node?_append_of_at? hat]
  · next hentry =>
    refine ⟨[], rfl, List.Pairwise.nil, fun l ↦ ⟨fun h ↦ absurd h List.not_mem_nil, ?_⟩⟩
    rintro ⟨hcandidate, content, hnode⟩
    -- the file would make the path lead to a directory
    have hne : l ≠ [] := by
      rintro rfl
      exact hcandidate
    have hdir : s.node? q.parts = some .dir :=
      dir_of_isPrefix (by rw [hnode]; simp) (List.prefix_append q.parts l) (by simpa using hne)
    have hlocate : s.locate q = .ok q.parts := by
      refine locate_of_node? hq.isAbsolute (fun name hname ↦ ?_) (by rw [hdir]; simp)
      exact hfiles _ _ hnode name (List.mem_append_left l hname)
    obtain ⟨e, hat, he⟩ := at?_of_node? hdir
    cases e with
    | file => cases he
    | dir inside => exact absurd (entry_eq_ok_iff.mpr ⟨_, hlocate, hat⟩) (hentry inside)

/-- **Stores with the same source files below a directory have the same sources there.** -/
theorem sources_eq_of_files (hq : Straight q) (hdistinct : s.files.Distinct)
    (hdistinct' : s'.files.Distinct)
    (hfiles : ∀ l content, s.node? l = some (.file content) → ∀ name ∈ l, LeadsDown name)
    (hfiles' : ∀ l content, s'.node? l = some (.file content) → ∀ name ∈ l, LeadsDown name)
    (h : ∀ l, Sources.Candidate l →
      ((∃ content, s'.node? (q.parts ++ l) = some (.file content)) ↔
        ∃ content, s.node? (q.parts ++ l) = some (.file content))) :
    s'.sources q.toText = s.sources q.toText := by
  obtain ⟨ls, hsources, hpairwise, hmem⟩ := exists_sources hq hdistinct hfiles
  obtain ⟨ls', hsources', hpairwise', hmem'⟩ := exists_sources hq hdistinct' hfiles'
  have heq : ls' = ls := Sources.eq_of_precedes hpairwise' hpairwise fun l ↦ by
    rw [hmem, hmem']
    exact and_congr_right (h l)
  rw [hsources, hsources', heq]

/-! ## Sources below a resolved path -/

/-- Where names lead is what they say when each name of two points takes back one. -/
theorem eq_normalNames_of_follow {names location : List Text}
    (hlocation : ∀ name ∈ location, name ≠ "..") (h : s.follow location names = .ok l) :
    l = Path.normalNames (location ++ names) := by
  induction names generalizing location with
  | nil =>
    cases h
    rw [List.append_nil, Path.normalNames_of_ne_points hlocation]
  | cons name rest ih =>
    obtain ⟨-, -, hrest⟩ := follow_cons_eq_ok h
    rw [Path.normalNames_append_cons hlocation]
    refine ih (fun part hpart ↦ ?_) hrest
    split at hpart
    · exact hlocation part (List.dropLast_subset _ hpart)
    · next hname =>
      rcases List.mem_append.mp hpart with hpart | hpart
      · exact hlocation part hpart
      · exact List.mem_singleton.mp hpart ▸ hname

theorem eq_resolve_of_locate (hdirectory : ∀ name ∈ s.directory, name ≠ "..")
    (h : s.locate q = .ok l) : l = (q.resolve s.directory).parts := by
  have hfollow := (locate_eq_ok_iff.mp h).2
  rw [start] at hfollow
  rw [Path.resolve]
  dsimp only
  split at hfollow
  · next habsolute =>
    rw [if_pos habsolute]
    exact eq_normalNames_of_follow (fun name hname ↦ absurd hname List.not_mem_nil) hfollow
  · next hrelative =>
    rw [if_neg hrelative]
    exact eq_normalNames_of_follow hdirectory hfollow

/-- A directory that a path leads to is also where the resolved path leads. -/
theorem locate_resolve (hs : s.Sound) (h : s.locate q = .ok l) (hdir : s.node? l = some .dir) :
    s.locate (q.resolve s.directory) = .ok l := by
  have hnames : ∀ name ∈ l, LeadsDown name := fun name hname ↦
    (hs.isFileName hdir name hname).leadsDown
  obtain rfl : l = (q.resolve s.directory).parts := eq_resolve_of_locate (fun name hname ↦
    (hs.isFileName hs.directory name hname).leadsDown.ne_points) h
  exact locate_of_node? rfl hnames (by rw [hdir]; simp)

theorem isDirectory_iff : s.isDirectory q = true ↔ ∃ inside, s.entry q = .ok (.dir inside) := by
  rw [isDirectory]
  split
  · next inside hentry => simp [hentry]
  · next hentry => simpa using hentry

theorem isFileName_of_mem_ofTree (hs : s.Sound) {l names : List Text} {inside : Tree}
    (hat : s.files.at? l = some (.dir inside)) (hnames : names ∈ Sources.ofTree inside) :
    ∀ name ∈ names, Path.IsFileName name := by
  obtain ⟨-, content, hfile⟩ := (Sources.mem_ofTree (hs.files.distinct.of_at? hat)).mp hnames
  have hnode : s.node? (l ++ names) = some (.file content) := by
    rw [node?, Tree.node?_append_of_at? hat, hfile]
  exact fun name hname ↦ hs.isFileName hnode name (List.mem_append_right l hname)

theorem resolve_ofText_source (hs : s.Sound) {root : Text} {l names : List Text} {inside : Tree}
    (hat : s.files.at? l = some (.dir inside)) (hnames : names ∈ Sources.ofTree inside) :
    (Path.ofText (Path.toText ⟨(Path.ofText root).root, (Path.ofText root).parts ++ names⟩)).resolve
        s.directory =
      ⟨"/", ((Path.ofText root).resolve s.directory).parts ++ names⟩ := by
  have haccepted := isFileName_of_mem_ofTree hs hat hnames
  rw [Path.ofText_toText (Path.isRoot_rootOf root)]
  · exact Path.resolve_append fun name hname ↦ (haccepted name hname).leadsDown.ne_points
  · intro name hname
    rcases List.mem_append.mp hname with hname | hname
    · exact Path.isPart_of_mem_names hname
    · exact (haccepted name hname).isPart

/-- The paths of the sources below a text that can be a path can be paths too. -/
theorem check_of_mem_sources (hs : s.Sound) {root : Text} (hroot : Files.check root = .ok ())
    {p : Path} (hp : p ∈ s.sources root) : Files.check p.toText = .ok () := by
  rw [sources] at hp
  split at hp
  · cases hp
  · dsimp only at hp
    split at hp
    · next inside hentry =>
      obtain ⟨l, -, hat⟩ := entry_eq_ok_iff.mp hentry
      obtain ⟨names, hnames, rfl⟩ := List.mem_map.mp hp
      have haccepted := isFileName_of_mem_ofTree hs hat hnames
      have hparts : ∀ name ∈ (Path.ofText root).parts ++ names, Path.IsPart name := by
        rw [List.forall_mem_append]
        exact ⟨fun name hname ↦ Path.isPart_of_mem_names hname,
          fun name hname ↦ (haccepted name hname).isPart⟩
      have hread : Path.names (Path.toText ⟨(Path.ofText root).root,
          (Path.ofText root).parts ++ names⟩) = (Path.ofText root).parts ++ names :=
        congrArg Path.parts (Path.ofText_toText (Path.isRoot_rootOf root) hparts)
      rw [Files.check_eq_ok_iff, hread, List.forall_mem_append]
      exact ⟨Files.check_eq_ok_iff.mp hroot,
        fun name hname ↦ (haccepted name hname).leadsDown.taken⟩
    · cases hp

/-- **The sources below a path are those below the resolved path**, each under the name that it has
there, unless only the resolved path leads to a directory. -/
theorem map_resolve_sources (hs : s.Sound) {root : Text} (hne : root ≠ [])
    (hstraight : Straight ((Path.ofText root).resolve s.directory))
    (hleads : s.isDirectory ((Path.ofText root).resolve s.directory) = true →
      s.isDirectory (Path.ofText root) = true) :
    (s.sources root).map (fun p ↦ (Path.ofText p.toText).resolve s.directory) =
      s.sources ((Path.ofText root).resolve s.directory).toText := by
  have hresolved : ((Path.ofText root).resolve s.directory).toText.isEmpty = false := rfl
  have hnonempty : root.isEmpty = false := by simpa using hne
  rw [sources, sources, hresolved, hnonempty, if_neg (by decide), if_neg (by decide)]
  dsimp only
  rw [Path.ofText_toText (.inr (.inl hstraight.root)) hstraight.parts]
  by_cases hdir : s.isDirectory (Path.ofText root) = true
  · obtain ⟨inside, hentry⟩ := isDirectory_iff.mp hdir
    obtain ⟨l, hlocate, hat⟩ := entry_eq_ok_iff.mp hentry
    -- Both paths lead to the same directory.
    have hnode : s.node? l = some .dir := by
      rw [node?, Tree.node?, hat]
      rfl
    rw [hentry, entry_eq_ok_iff.mpr ⟨l, locate_resolve hs hlocate hnode, hat⟩]
    dsimp only
    rw [List.map_map]
    exact List.map_congr_left fun names hnames ↦ resolve_ofText_source hs hat hnames
  · have hnot : ∀ {q : Path}, ¬ s.isDirectory q = true →
        ∀ inside, s.entry q ≠ .ok (.dir inside) := fun h inside hentry ↦
      h (isDirectory_iff.mpr ⟨inside, hentry⟩)
    split
    · next inside hentry => exact absurd hentry (hnot hdir inside)
    · split
      · next inside hentry => exact absurd hentry (hnot (mt hleads hdir) inside)
      · rfl

end Store

end RouteCatalog
