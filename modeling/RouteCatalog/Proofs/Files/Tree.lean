import Mathlib.Data.List.Basic
import RouteCatalog.Files.Tree

/-!
# Locations of a tree

What stands at a location is a file with its contents, a directory, or nothing. Setting and erasing
an entry are described by this alone (`node?_setAt`, `node?_eraseAt`): at the location and below it
everything is new, everywhere else nothing changes, the directories above included.

For an entry that is new the tree itself comes back when the entry is erased again
(`eraseAt_setAt`).
-/

namespace RouteCatalog

/-- What stands at a location, without what is below it. -/
inductive Node
  | file (content : Bytes)
  | dir
  deriving DecidableEq

/-- The node of an entry. -/
def Entry.node : Entry → Node
  | .file content => .file content
  | .dir _ => .dir

/-- What stands at a location of a tree. -/
def Tree.node? (t : Tree) (l : List Text) : Option Node := (t.at? l).map Entry.node

/-- What stands at a location below an entry; the empty location is the entry itself. -/
def Entry.node? : Entry → List Text → Option Node
  | .dir inside, l => inside.node? l
  | .file content, [] => some (.file content)
  | .file _, _ :: _ => none

@[simp] theorem Tree.node?_nil (t : Tree) : t.node? [] = some .dir := by
  cases t <;> rfl

@[simp] theorem Entry.node?_nil (e : Entry) : e.node? [] = some e.node := by
  cases e with
  | file content => rfl
  | dir inside => exact Tree.node?_nil inside

namespace Tree

variable {t : Tree} {e e' : Entry} {name : Text} {l m : List Text}

theorem node?_cons (t : Tree) (name : Text) (l : List Text) :
    t.node? (name :: l) = (t.find? name).bind fun e ↦ e.node? l := by
  cases l with
  | nil =>
    rw [node?, at?]
    cases t.find? name with
    | none => rfl
    | some e => exact e.node?_nil.symm
  | cons next l =>
    rw [node?, at?]
    · cases t.find? name with
      | none => rfl
      | some e =>
        cases e with
        | file content => rfl
        | dir inside => rfl
    · simp

theorem node?_append {below : List Text} (h : t.node? l ≠ some .dir) (hne : below ≠ []) :
    t.node? (l ++ below) = none := by
  induction l generalizing t with
  | nil => exact absurd t.node?_nil h
  | cons name l ih =>
    rw [List.cons_append, node?_cons]
    rw [node?_cons] at h
    cases hfind : t.find? name with
    | none => rfl
    | some e =>
      rw [hfind] at h
      cases e with
      | dir inside => exact ih h
      | file content =>
        cases hlist : l ++ below with
        | nil => exact absurd (List.append_eq_nil_iff.mp hlist).2 hne
        | cons => rfl

/-! ## Setting and erasing -/

/-- Entries one by one, whatever they are. -/
theorem consInduction {motive : Tree → Prop} (empty : motive .empty)
    (cons : ∀ name e rest, motive rest → motive (cons name e rest)) (t : Tree) : motive t := by
  induction t with
  | empty => exact empty
  | file name content rest ih => exact cons name (.file content) rest ih
  | dir name inside rest _ ih => exact cons name (.dir inside) rest ih

theorem set_cons (n name : Text) (e e' : Entry) (rest : Tree) :
    (cons n e' rest).set name e =
      if n = name then cons name e rest else cons n e' (rest.set name e) := by
  cases e' <;> rfl

theorem erase_cons (n name : Text) (e : Entry) (rest : Tree) :
    (cons n e rest).erase name =
      if n = name then rest.erase name else cons n e (rest.erase name) := by
  cases e <;> rfl

theorem set_of_find? (h : t.find? name = some e) : t.set name e = t := by
  induction t using consInduction with
  | empty => cases h
  | cons n found rest ih =>
    rw [find?_cons] at h
    rw [set_cons]
    split at h
    · next hn =>
      cases h
      rw [if_pos hn, hn]
    · next hn => rw [if_neg hn, ih h]

theorem set_set (name : Text) (e e' : Entry) (t : Tree) :
    (t.set name e').set name e = t.set name e := by
  induction t using consInduction with
  | empty =>
    have hset : (cons name e' empty).set name e = cons name e empty := by
      rw [set_cons, if_pos rfl]
    exact hset
  | cons n found rest ih =>
    rw [set_cons, set_cons]
    split
    · rw [set_cons, if_pos rfl]
    · next hn => rw [set_cons, if_neg hn, ih]

theorem erase_set (h : t.find? name = none) : (t.set name e).erase name = t := by
  induction t using consInduction with
  | empty =>
    have herase : (cons name e empty).erase name = empty := by
      rw [erase_cons, if_pos rfl]
      rfl
    exact herase
  | cons n found rest ih =>
    rw [find?_cons] at h
    split at h
    · cases h
    · next hn => rw [set_cons, if_neg hn, erase_cons, if_neg hn, ih h]

/-! ## Setting and erasing at a location -/

theorem setAt_cons_cons (t : Tree) (e : Entry) (name next : Text) (rest : List Text) :
    t.setAt e (name :: next :: rest) =
      match t.find? name with
      | some (.dir inside) => t.set name (.dir (inside.setAt e (next :: rest)))
      | _ => t := rfl

theorem eraseAt_cons_cons (t : Tree) (name next : Text) (rest : List Text) :
    t.eraseAt (name :: next :: rest) =
      match t.find? name with
      | some (.dir inside) => t.set name (.dir (inside.eraseAt (next :: rest)))
      | _ => t := rfl

/-- A location whose directory exists is a name, or leads into a directory. -/
theorem exists_find?_of_dir {next : Text} {rest : List Text}
    (h : t.node? (name :: next :: rest).dropLast = some .dir) :
    ∃ inside, t.find? name = some (.dir inside) ∧
      inside.node? (next :: rest).dropLast = some .dir := by
  rw [List.dropLast_cons_cons, node?_cons] at h
  cases hfind : t.find? name with
  | none => rw [hfind] at h; cases h
  | some e =>
    rw [hfind, Option.bind_some] at h
    cases e with
    | dir inside => exact ⟨inside, rfl, h⟩
    | file content => cases hrest : (next :: rest).dropLast <;> rw [hrest] at h <;> cases h

theorem setAt_of_not_dir (h : t.node? l.dropLast ≠ some .dir) : t.setAt e l = t := by
  induction l generalizing t with
  | nil => exact absurd t.node?_nil h
  | cons name l ih =>
    cases l with
    | nil => exact absurd t.node?_nil h
    | cons next rest =>
      rw [setAt_cons_cons]
      split
      · next inside hfind =>
        rw [List.dropLast_cons_cons, node?_cons, hfind] at h
        rw [ih h, set_of_find? hfind]
      · rfl

theorem node?_set_dir (inside : Tree) (n : Text) (m : List Text) :
    (t.set name (.dir inside)).node? (n :: m) =
      if name = n then inside.node? m else t.node? (n :: m) := by
  rw [node?_cons, find?_set, node?_cons]
  split <;> rfl

/-- Setting an entry changes what stands at the location and below it, and nothing else. -/
theorem node?_setAt (hne : l ≠ []) (h : t.node? l.dropLast = some .dir) (m : List Text) :
    (t.setAt e l).node? m = if l <+: m then e.node? (m.drop l.length) else t.node? m := by
  induction l generalizing t m with
  | nil => exact absurd rfl hne
  | cons name l ih =>
    cases m with
    | nil => simp
    | cons n m =>
      cases l with
      | nil =>
        rw [setAt, node?_cons, find?_set]
        by_cases hn : name = n
        · simp [hn]
        · simp [hn, node?_cons]
      | cons next rest =>
        obtain ⟨inside, hfind, hdir⟩ := exists_find?_of_dir h
        rw [setAt_cons_cons, hfind]
        dsimp only
        rw [node?_set_dir]
        simp only [List.cons_prefix_cons]
        by_cases hn : name = n
        · subst hn
          rw [if_pos rfl, ih (List.cons_ne_nil _ _) hdir, node?_cons, hfind]
          simp [Entry.node?]
        · rw [if_neg hn, if_neg fun hand ↦ hn hand.1]

/-- Erasing empties the location and what is below it, and nothing else changes. -/
theorem node?_eraseAt (hne : l ≠ []) (h : t.node? l.dropLast = some .dir) (m : List Text) :
    (t.eraseAt l).node? m = if l <+: m then none else t.node? m := by
  induction l generalizing t m with
  | nil => exact absurd rfl hne
  | cons name l ih =>
    cases m with
    | nil => simp
    | cons n m =>
      cases l with
      | nil =>
        rw [eraseAt, node?_cons, find?_erase]
        by_cases hn : name = n
        · simp [hn]
        · simp [hn, node?_cons]
      | cons next rest =>
        obtain ⟨inside, hfind, hdir⟩ := exists_find?_of_dir h
        rw [eraseAt_cons_cons, hfind]
        dsimp only
        rw [node?_set_dir]
        simp only [List.cons_prefix_cons]
        by_cases hn : name = n
        · subst hn
          rw [if_pos rfl, ih (List.cons_ne_nil _ _) hdir, node?_cons, hfind]
          simp [Entry.node?]
        · rw [if_neg hn, if_neg fun hand ↦ hn hand.1]

theorem setAt_setAt (e e' : Entry) (l : List Text) :
    (t.setAt e' l).setAt e l = t.setAt e l := by
  induction l generalizing t with
  | nil => rfl
  | cons name l ih =>
    cases l with
    | nil => exact set_set name e e' t
    | cons next rest =>
      cases hfind : t.find? name with
      | none => rw [setAt_cons_cons t, hfind]
      | some found =>
        cases found with
        | file content => rw [setAt_cons_cons t, hfind]
        | dir inside =>
          have hfound : (t.set name (.dir (inside.setAt e' (next :: rest)))).find? name =
              some (.dir (inside.setAt e' (next :: rest))) := by
            rw [find?_set, if_pos rfl]
          rw [setAt_cons_cons t e', setAt_cons_cons t e, hfind]
          dsimp only
          rw [setAt_cons_cons, hfound]
          dsimp only
          rw [set_set, ih]

theorem eraseAt_setAt (h : t.node? l = none) : (t.setAt e l).eraseAt l = t := by
  induction l generalizing t with
  | nil => rfl
  | cons name l ih =>
    rw [node?_cons] at h
    -- At the last name nothing was there, so the entry was put at the end and goes again.
    cases l with
    | nil =>
      refine erase_set ?_
      cases hfind : t.find? name with
      | none => rfl
      | some found => rw [hfind, Option.bind_some, Entry.node?_nil] at h; cases h
    | cons next rest =>
      cases hfind : t.find? name with
      | none => rw [setAt_cons_cons, hfind, eraseAt_cons_cons, hfind]
      | some found =>
        cases found with
        | file content => rw [setAt_cons_cons, hfind, eraseAt_cons_cons, hfind]
        | dir inside =>
          rw [hfind, Option.bind_some] at h
          have hfound : (t.set name (.dir (inside.setAt e (next :: rest)))).find? name =
              some (.dir (inside.setAt e (next :: rest))) := by
            rw [find?_set, if_pos rfl]
          rw [setAt_cons_cons, hfind]
          dsimp only
          rw [eraseAt_cons_cons, hfound]
          dsimp only
          rw [set_set, ih h, set_of_find? hfind]

/-! ## Names that differ -/

/-- The names of the entries of every directory differ. -/
def Distinct : Tree → Prop
  | .empty => True
  | .file name _ rest => rest.find? name = none ∧ rest.Distinct
  | .dir name inside rest => rest.find? name = none ∧ inside.Distinct ∧ rest.Distinct

theorem distinct_cons {name : Text} {e : Entry} {rest : Tree} :
    (cons name e rest).Distinct ↔
      rest.find? name = none ∧ (∀ inside, e = .dir inside → inside.Distinct) ∧ rest.Distinct := by
  cases e with
  | file content => simp [cons, Distinct]
  | dir inside => simp [cons, Distinct]

theorem Distinct.of_find? (ht : t.Distinct) {inside : Tree}
    (h : t.find? name = some (.dir inside)) :
    inside.Distinct := by
  induction t using consInduction with
  | empty => cases h
  | cons n e rest ih =>
    obtain ⟨-, hinside, hrest⟩ := distinct_cons.mp ht
    rw [find?_cons] at h
    split at h
    · cases h
      exact hinside inside rfl
    · exact ih hrest h

theorem Distinct.set (ht : t.Distinct) (he : ∀ inside, e = .dir inside → inside.Distinct)
    (name : Text) : (t.set name e).Distinct := by
  induction t using consInduction with
  | empty => exact distinct_cons.mpr ⟨rfl, he, trivial⟩
  | cons n found rest ih =>
    obtain ⟨hfree, hinside, hrest⟩ := distinct_cons.mp ht
    rw [set_cons]
    split
    · next hn => exact distinct_cons.mpr ⟨hn ▸ hfree, he, hrest⟩
    · next hn =>
      refine distinct_cons.mpr ⟨?_, hinside, ih hrest⟩
      rw [find?_set, if_neg (Ne.symm hn), hfree]

theorem Distinct.erase (ht : t.Distinct) (name : Text) : (t.erase name).Distinct := by
  induction t using consInduction with
  | empty => trivial
  | cons n found rest ih =>
    obtain ⟨hfree, hinside, hrest⟩ := distinct_cons.mp ht
    rw [erase_cons]
    split
    · exact ih hrest
    · next hn =>
      refine distinct_cons.mpr ⟨?_, hinside, ih hrest⟩
      rw [find?_erase, if_neg (Ne.symm hn), hfree]

theorem Distinct.setAt (ht : t.Distinct) (he : ∀ inside, e = .dir inside → inside.Distinct)
    (l : List Text) : (t.setAt e l).Distinct := by
  induction l generalizing t with
  | nil => exact ht
  | cons name l ih =>
    cases l with
    | nil => exact ht.set he name
    | cons next rest =>
      rw [setAt_cons_cons]
      split
      · next inside hfind =>
        refine ht.set (fun _ heq ↦ ?_) name
        cases heq
        exact ih (ht.of_find? hfind)
      · exact ht

theorem Distinct.eraseAt (ht : t.Distinct) (l : List Text) : (t.eraseAt l).Distinct := by
  induction l generalizing t with
  | nil => exact ht
  | cons name l ih =>
    cases l with
    | nil => exact ht.erase name
    | cons next rest =>
      rw [eraseAt_cons_cons]
      split
      · next inside hfind =>
        refine ht.set (fun _ heq ↦ ?_) name
        cases heq
        exact ih (ht.of_find? hfind)
      · exact ht

end Tree

end RouteCatalog
