import RouteCatalog.Text.Utf8

/-!
# Directory trees

The contents of a directory are a sequence of entries, each a file or a directory with contents of
its own. Writing the sequence into the type keeps every recursion over a tree structural. The order
of the entries is the order in which a directory is listed; nothing that is reported depends on it.

Locations are lists of names, from the outermost directory inwards.
-/

namespace RouteCatalog

/-- The contents of a directory. -/
inductive Tree
  | empty
  | file (name : Text) (content : Bytes) (rest : Tree)
  | dir (name : Text) (inside : Tree) (rest : Tree)

/-- What a name stands for. -/
inductive Entry
  | file (content : Bytes)
  | dir (inside : Tree)

namespace Tree

instance : Inhabited Tree := ⟨.empty⟩

def find? (name : Text) : Tree → Option Entry
  | .empty => none
  | .file n content rest => if n = name then some (.file content) else find? name rest
  | .dir n inside rest => if n = name then some (.dir inside) else find? name rest

def cons (name : Text) : Entry → Tree → Tree
  | .file content, rest => .file name content rest
  | .dir inside, rest => .dir name inside rest

/-- Sets the entry with a name, in place when there is one, otherwise at the end. -/
def set (name : Text) (e : Entry) : Tree → Tree
  | .empty => cons name e .empty
  | .file n content rest =>
    if n = name then cons name e rest else .file n content (set name e rest)
  | .dir n inside rest => if n = name then cons name e rest else .dir n inside (set name e rest)

def erase (name : Text) : Tree → Tree
  | .empty => .empty
  | .file n content rest =>
    if n = name then erase name rest else .file n content (erase name rest)
  | .dir n inside rest => if n = name then erase name rest else .dir n inside (erase name rest)

theorem find?_cons (name : Text) (e : Entry) (rest : Tree) (n : Text) :
    find? n (cons name e rest) = if name = n then some e else find? n rest := by
  cases e <;> rfl

theorem find?_set (name : Text) (e : Entry) (t : Tree) (n : Text) :
    find? n (set name e t) = if name = n then some e else find? n t := by
  induction t with
  | empty => simp [set, find?_cons, find?]
  | file m content rest ih =>
    by_cases h : m = name
    · subst h
      by_cases hn : m = n <;> simp [set, find?_cons, find?, hn]
    · by_cases hm : m = n
      · subst hm
        simp [set, find?, h, Ne.symm h]
      · simp [set, find?, h, hm, ih]
  | dir m inside rest _ ih =>
    by_cases h : m = name
    · subst h
      by_cases hn : m = n <;> simp [set, find?_cons, find?, hn]
    · by_cases hm : m = n
      · subst hm
        simp [set, find?, h, Ne.symm h]
      · simp [set, find?, h, hm, ih]

theorem find?_erase (name : Text) (t : Tree) (n : Text) :
    find? n (erase name t) = if name = n then none else find? n t := by
  induction t with
  | empty => simp [erase, find?]
  | file m content rest ih =>
    by_cases h : m = name
    · subst h
      by_cases hn : m = n <;> simp_all [erase, find?]
    · by_cases hm : m = n
      · subst hm
        simp [erase, find?, h, Ne.symm h]
      · simp [erase, find?, h, hm, ih]
  | dir m inside rest _ ih =>
    by_cases h : m = name
    · subst h
      by_cases hn : m = n <;> simp_all [erase, find?]
    · by_cases hm : m = n
      · subst hm
        simp [erase, find?, h, Ne.symm h]
      · simp [erase, find?, h, hm, ih]

/-- The entry at a location; the empty location is the directory itself. -/
def at? (t : Tree) : List Text → Option Entry
  | [] => some (.dir t)
  | [name] => t.find? name
  | name :: rest =>
    match t.find? name with
    | some (.dir inside) => inside.at? rest
    | _ => none

/-- Sets the entry at a location whose directory exists; otherwise nothing changes. -/
def setAt (t : Tree) (e : Entry) : List Text → Tree
  | [] => t
  | [name] => t.set name e
  | name :: rest =>
    match t.find? name with
    | some (.dir inside) => t.set name (.dir (inside.setAt e rest))
    | _ => t

/-- Removes the entry at a location, with all that is below it. -/
def eraseAt (t : Tree) : List Text → Tree
  | [] => t
  | [name] => t.erase name
  | name :: rest =>
    match t.find? name with
    | some (.dir inside) => t.set name (.dir (inside.eraseAt rest))
    | _ => t

/-- The locations of all entries below the directory `above`, a directory before its contents; a
directory is marked by `true`. -/
def locations (above : List Text) : Tree → List (List Text × Bool)
  | .empty => []
  | .file name _ rest => (above ++ [name], false) :: locations above rest
  | .dir name inside rest =>
    (above ++ [name], true) :: (locations (above ++ [name]) inside ++ locations above rest)

end Tree

end RouteCatalog
