import RouteCatalog.Files.Path
import RouteCatalog.Proofs.Text.Surrogate

/-!
# Paths and their texts

The names of a path that was read from a text are neither empty nor a single point, and they hold no
slash (`Path.IsPart`). A path of such names is what its text denotes (`Path.ofText_toText`), and a
path that is resolved has no name of two points either.
-/

namespace RouteCatalog

namespace Text

theorem not_mem_of_mem_splitOn {separator : CodePoint} {piece t : Text}
    (h : piece ∈ t.splitOn separator) : separator ∉ piece := by
  induction t generalizing piece with
  | nil =>
    rw [List.mem_singleton.mp h]
    exact List.not_mem_nil
  | cons c t ih =>
    rw [splitOn_eq, List.splitOn_cons_eq_if_modifyHead] at h
    obtain ⟨first, rest, hsplit⟩ := List.exists_cons_of_ne_nil (List.splitOn_ne_nil separator t)
    rw [splitOn_eq, hsplit] at ih
    rw [hsplit] at h
    by_cases hc : c = separator
    · rw [if_pos (beq_iff_eq.mpr hc)] at h
      rcases List.mem_cons.mp h with rfl | h
      · exact List.not_mem_nil
      · exact ih h
    · rw [if_neg (by simpa using hc), List.modifyHead_cons] at h
      rcases List.mem_cons.mp h with rfl | h
      · exact List.not_mem_cons_of_ne_of_not_mem (Ne.symm hc) (ih List.mem_cons_self)
      · exact ih (List.mem_cons_of_mem first h)

end Text

namespace Path

/-- A name that a path can have: it is not empty, no single point, and holds no slash. -/
structure IsPart (name : Text) : Prop where
  ne_nil : name ≠ []
  ne_point : name ≠ "."
  noSlash : CodePoint.ofChar '/' ∉ name

theorem isPart_of_mem_names {t name : Text} (h : name ∈ names t) : IsPart name := by
  obtain ⟨hpiece, hkept⟩ := List.mem_filter.mp h
  simp only [Bool.and_eq_true, Bool.not_eq_true', List.isEmpty_eq_false_iff, decide_eq_true_eq]
    at hkept
  exact ⟨hkept.1, hkept.2, Text.not_mem_of_mem_splitOn hpiece⟩

theorem unsplit_of_mem_names {t name : Text} (ht : t.Unsplit) (h : name ∈ names t) :
    name.Unsplit := ht.of_isInfix (Text.isInfix_of_mem_splitOn (List.mem_of_mem_filter h))

/-! ## Texts of paths -/

theorem names_slash (t : Text) : names (CodePoint.ofChar '/' :: t) = names t := by
  rw [names, names, Text.splitOn_eq, Text.splitOn_eq, List.splitOn_cons_eq_if_modifyHead,
    if_pos (by rfl), List.filter_cons_of_neg (by simp)]

theorem names_join {parts : List Text} (h : ∀ name ∈ parts, IsPart name) :
    names (Text.join "/" parts) = parts := by
  cases parts with
  | nil => rfl
  | cons name rest =>
    have hslash : ∀ part ∈ name :: rest, CodePoint.ofChar '/' ∉ part := fun part hpart ↦
      (h part hpart).noSlash
    have hpieces : List.splitOn (CodePoint.ofChar '/') (Text.join "/" (name :: rest)) =
        name :: rest := List.splitOn_intercalate _ hslash (List.cons_ne_nil name rest)
    rw [names, Text.splitOn_eq, hpieces]
    refine List.filter_eq_self.mpr fun part hpart ↦ ?_
    simp [(h part hpart).ne_nil, (h part hpart).ne_point]

theorem takeWhile_join {parts : List Text} (h : ∀ name ∈ parts, IsPart name) :
    (Text.join "/" parts).takeWhile (· = CodePoint.ofChar '/') = [] := by
  cases parts with
  | nil => rfl
  | cons name rest =>
    have hname := h name List.mem_cons_self
    obtain ⟨c, more, rfl⟩ := List.exists_cons_of_ne_nil hname.ne_nil
    have hc : c ≠ CodePoint.ofChar '/' := fun heq ↦ hname.noSlash (heq ▸ List.mem_cons_self)
    cases rest with
    | nil => rw [Text.join_singleton, List.takeWhile_cons_of_neg (by simpa using hc)]
    | cons next rest =>
      rw [Text.join_cons_cons, List.append_assoc, List.cons_append,
        List.takeWhile_cons_of_neg (by simpa using hc)]

/-- The roots that a path can have. -/
def IsRoot (root : Text) : Prop := root = [] ∨ root = "/" ∨ root = "//"

theorem isRoot_rootOf (t : Text) : IsRoot (rootOf t) := by
  rw [rootOf]
  split
  · exact .inl rfl
  · exact .inr (.inr rfl)
  · exact .inr (.inl rfl)

/-- **A path is what its text denotes.** -/
theorem ofText_toText {p : Path} (hroot : IsRoot p.root) (h : ∀ name ∈ p.parts, IsPart name) :
    ofText p.toText = p := by
  obtain ⟨root, parts⟩ := p
  have hfront := takeWhile_join h
  have hnames := names_join h
  rcases hroot with rfl | rfl | rfl
  · cases parts with
    | nil => rfl
    | cons name rest =>
      have htext : toText ⟨[], name :: rest⟩ = Text.join "/" (name :: rest) := rfl
      rw [htext, ofText, rootOf, hfront, hnames]
      rfl
  · have htext : toText ⟨"/", parts⟩ = CodePoint.ofChar '/' :: Text.join "/" parts := rfl
    rw [htext, ofText, rootOf, List.takeWhile_cons_of_pos (by simp), hfront, names_slash, hnames]
    rfl
  · have htext : toText ⟨"//", parts⟩ =
        CodePoint.ofChar '/' :: CodePoint.ofChar '/' :: Text.join "/" parts := rfl
    rw [htext, ofText, rootOf, List.takeWhile_cons_of_pos (by simp),
      List.takeWhile_cons_of_pos (by simp), hfront, names_slash, names_slash, hnames]
    rfl

theorem unsplit_toText {p : Path} (hroot : p.root = "/") (h : ∀ name ∈ p.parts, name.Unsplit) :
    p.toText.Unsplit := by
  obtain ⟨root, parts⟩ := p
  subst hroot
  have htext : toText ⟨"/", parts⟩ = [] ++ CodePoint.ofChar '/' :: Text.join "/" parts := rfl
  rw [htext]
  exact Text.Unsplit.append_cons List.IsChain.nil (by decide) (Text.Unsplit.join (by decide) h)

/-! ## Resolved paths -/

theorem mem_normalNames {parts : List Text} {name : Text} (h : name ∈ normalNames parts) :
    name ∈ parts ∧ name ≠ ".." := by
  -- The names that are kept so far are part of what the fold carries.
  have hfold (done parts : List Text)
      (h : name ∈ parts.foldl (fun (done : List Text) (name : Text) ↦
        if name = ".." then done.dropLast else done ++ [name]) done) :
      name ∈ done ∨ name ∈ parts ∧ name ≠ ".." := by
    induction parts generalizing done with
    | nil => exact .inl h
    | cons part rest ih =>
      rw [List.foldl_cons] at h
      rcases ih _ h with hdone | ⟨hrest, hne⟩
      · split at hdone
        · exact .inl (List.dropLast_subset _ hdone)
        · next hpart =>
          rcases List.mem_append.mp hdone with hdone | hlast
          · exact .inl hdone
          · rw [List.mem_singleton.mp hlast]
            exact .inr ⟨List.mem_cons_self, hpart⟩
      · exact .inr ⟨List.mem_cons_of_mem part hrest, hne⟩
  exact (hfold [] parts h).resolve_left List.not_mem_nil

theorem normalNames_append {parts names : List Text} (h : ∀ name ∈ names, name ≠ "..") :
    normalNames (parts ++ names) = normalNames parts ++ names := by
  induction names generalizing parts with
  | nil => rw [List.append_nil, List.append_nil]
  | cons name rest ih =>
    obtain ⟨hname, hrest⟩ := List.forall_mem_cons.mp h
    have hlast : normalNames (parts ++ [name]) = normalNames parts ++ [name] := by
      rw [normalNames, List.foldl_append, List.foldl_cons, List.foldl_nil, if_neg hname]
      rfl
    rw [List.append_cons, ih hrest, hlast, List.append_assoc, List.singleton_append]

theorem normalNames_of_ne_points {names : List Text} (h : ∀ name ∈ names, name ≠ "..") :
    normalNames names = names := @normalNames_append [] names h

theorem normalNames_append_cons {parts rest : List Text} {name : Text}
    (h : ∀ part ∈ parts, part ≠ "..") :
    normalNames (parts ++ name :: rest) =
      normalNames ((if name = ".." then parts.dropLast else parts ++ [name]) ++ rest) := by
  have hstep : ∀ part ∈ (if name = ".." then parts.dropLast else parts ++ [name]), part ≠ ".." := by
    intro part hpart
    split at hpart
    · exact h part (List.dropLast_subset _ hpart)
    · next hname =>
      rcases List.mem_append.mp hpart with hpart | hpart
      · exact h part hpart
      · exact List.mem_singleton.mp hpart ▸ hname
  have hparts := normalNames_of_ne_points h
  have hnext := normalNames_of_ne_points hstep
  rw [normalNames] at hparts hnext
  rw [normalNames, normalNames, List.foldl_append, List.foldl_append, hparts, hnext,
    List.foldl_cons]

theorem mem_parts_resolve {directory : List Text} {p : Path} {name : Text}
    (h : name ∈ (p.resolve directory).parts) :
    (name ∈ directory ∨ name ∈ p.parts) ∧ name ≠ ".." := by
  obtain ⟨hmem, hne⟩ := mem_normalNames h
  refine ⟨?_, hne⟩
  split at hmem
  · exact .inr hmem
  · exact List.mem_append.mp hmem

theorem resolve_append {p : Path} {names directory : List Text} (h : ∀ name ∈ names, name ≠ "..") :
    (⟨p.root, p.parts ++ names⟩ : Path).resolve directory =
      ⟨"/", (p.resolve directory).parts ++ names⟩ := by
  have habsolute : (⟨p.root, p.parts ++ names⟩ : Path).isAbsolute = p.isAbsolute := rfl
  rw [resolve, resolve, habsolute]
  dsimp only
  split
  · rw [normalNames_append h]
  · rw [← List.append_assoc, normalNames_append h]

end Path

end RouteCatalog
