import Mathlib.Data.List.Nodup
import RouteCatalog.Json.Value
import RouteCatalog.Proofs.Text.Surrogate

/-!
# Properties of values at every level

A value is written and read back under three conditions, each on all values inside it: no string
splits a surrogate pair (`Json.Unsplit`), the keys of an object differ (`Json.Distinct`), and no
integer is longer than what is read (`Json.Short`). They are instances of one recursion,
`Json.Each`.

An object whose keys differ is what the sequence of its members makes (`ofMembers_of_nodup`), and
any sequence of members makes such an object
(`nodup_keys_setMembers`).
-/

namespace RouteCatalog

namespace Json

/-! ## Values by nesting -/

/-- A value that holds no others. -/
def isScalar : Json → Bool
  | .arr _ | .obj _ => false
  | _ => true

/-- What holds of the scalars, and of every container of values of which it holds, holds of all
values. -/
@[elab_as_elim]
theorem induct {motive : Json → Prop} (scalar : ∀ v, v.isScalar = true → motive v)
    (arr : ∀ items, (∀ v ∈ items, motive v) → motive (.arr items))
    (obj : ∀ members, (∀ m ∈ members, motive m.2) → motive (.obj members)) (v : Json) :
    motive v := by
  refine @Json.rec motive (fun items ↦ ∀ v ∈ items, motive v)
    (fun members ↦ ∀ m ∈ members, motive m.2) (fun m ↦ motive m.2)
    ?null ?bool ?int ?float ?str arr obj ?itemsNil ?itemsCons ?membersNil ?membersCons ?member v
  case null => exact scalar .null rfl
  case bool => exact fun b ↦ scalar (.bool b) rfl
  case int => exact fun i ↦ scalar (.int i) rfl
  case float => exact fun x ↦ scalar (.float x) rfl
  case str => exact fun t ↦ scalar (.str t) rfl
  case itemsNil => simp
  case itemsCons => exact fun v rest hv hrest ↦ List.forall_mem_cons.mpr ⟨hv, hrest⟩
  case membersNil => simp
  case membersCons => exact fun m rest hm hrest ↦ List.forall_mem_cons.mpr ⟨hm, hrest⟩
  case member => exact fun _ _ hv ↦ hv

/-! ## Every value inside a value -/

mutual

/-- A property of a value and of all values inside it. -/
def Each (p : Json → Prop) : Json → Prop
  | .arr items => p (.arr items) ∧ EachItem p items
  | .obj members => p (.obj members) ∧ EachMember p members
  | v => p v

/-- The property for the items of an array. -/
def EachItem (p : Json → Prop) : List Json → Prop
  | [] => True
  | v :: rest => Each p v ∧ EachItem p rest

/-- The property for the values of an object's members. -/
def EachMember (p : Json → Prop) : List (Text × Json) → Prop
  | [] => True
  | (_, v) :: rest => Each p v ∧ EachMember p rest

end

variable {p q : Json → Prop}

theorem eachItem_iff {items : List Json} : EachItem p items ↔ ∀ v ∈ items, v.Each p := by
  induction items with
  | nil => simp [EachItem]
  | cons v rest ih => simp [EachItem, ih]

theorem eachMember_iff {members : List (Text × Json)} :
    EachMember p members ↔ ∀ m ∈ members, m.2.Each p := by
  induction members with
  | nil => simp [EachMember]
  | cons m rest ih =>
    obtain ⟨k, v⟩ := m
    simp [EachMember, ih]

theorem each_arr_iff {items : List Json} :
    (arr items).Each p ↔ p (.arr items) ∧ ∀ v ∈ items, v.Each p := by
  rw [Each, eachItem_iff]

theorem each_obj_iff {members : List (Text × Json)} :
    (obj members).Each p ↔ p (.obj members) ∧ ∀ m ∈ members, m.2.Each p := by
  rw [Each, eachMember_iff]

mutual

/-- The property is decided value by value. -/
def decideEach [DecidablePred p] : (v : Json) → Decidable (Each p v)
  | .arr items => @instDecidableAnd _ _ _ (decideEachItem items)
  | .obj members => @instDecidableAnd _ _ _ (decideEachMember members)
  | .null => inferInstanceAs (Decidable (p .null))
  | .bool b => inferInstanceAs (Decidable (p (.bool b)))
  | .int i => inferInstanceAs (Decidable (p (.int i)))
  | .float x => inferInstanceAs (Decidable (p (.float x)))
  | .str t => inferInstanceAs (Decidable (p (.str t)))

/-- The items of an array are gone through. -/
def decideEachItem [DecidablePred p] : (items : List Json) → Decidable (EachItem p items)
  | [] => .isTrue trivial
  | v :: rest => @instDecidableAnd _ _ (decideEach v) (decideEachItem rest)

/-- The members of an object are gone through. -/
def decideEachMember [DecidablePred p] :
    (members : List (Text × Json)) → Decidable (EachMember p members)
  | [] => .isTrue trivial
  | (_, v) :: rest => @instDecidableAnd _ _ (decideEach v) (decideEachMember rest)

end

/-! ## The three conditions -/

/-- The string, or the keys, do not split a surrogate pair. -/
def UnsplitHere : Json → Prop
  | .str t => t.Unsplit
  | .obj members => ∀ m ∈ members, m.1.Unsplit
  | _ => True

/-- The keys differ. -/
def DistinctHere : Json → Prop
  | .obj members => (members.map Prod.fst).Nodup
  | _ => True

/-- The integer has no more digits than are read. -/
def ShortHere : Json → Prop
  | .int i => (Nat.toDigits 10 i.natAbs).length ≤ Numeral.maxDigits
  | _ => True

instance : DecidablePred UnsplitHere
  | .str t => inferInstanceAs (Decidable t.Unsplit)
  | .obj members => inferInstanceAs (Decidable (∀ m ∈ members, m.1.Unsplit))
  | .null | .bool _ | .int _ | .float _ | .arr _ => .isTrue trivial

instance : DecidablePred DistinctHere
  | .obj members => inferInstanceAs (Decidable (members.map Prod.fst).Nodup)
  | .null | .bool _ | .int _ | .float _ | .str _ | .arr _ => .isTrue trivial

instance : DecidablePred ShortHere
  | .int _ => inferInstanceAs (Decidable (_ ≤ _))
  | .null | .bool _ | .float _ | .str _ | .arr _ | .obj _ => .isTrue trivial

/-- No string and no key splits a surrogate pair. -/
def Unsplit : Json → Prop := Each UnsplitHere

/-- The keys of every object differ. -/
def Distinct : Json → Prop := Each DistinctHere

/-- No integer has more digits than are read. -/
def Short : Json → Prop := Each ShortHere

instance : DecidablePred Unsplit := decideEach
instance : DecidablePred Distinct := decideEach
instance : DecidablePred Short := decideEach

theorem unsplit_arr {items : List Json} : (arr items).Unsplit ↔ ∀ v ∈ items, v.Unsplit := by
  rw [Unsplit, each_arr_iff]
  exact ⟨And.right, fun h ↦ ⟨trivial, h⟩⟩

theorem unsplit_obj {members : List (Text × Json)} :
    (obj members).Unsplit ↔ ∀ m ∈ members, m.1.Unsplit ∧ m.2.Unsplit := by
  rw [Unsplit, each_obj_iff]
  exact ⟨fun h m hm ↦ ⟨h.1 m hm, h.2 m hm⟩, fun h ↦ ⟨fun m hm ↦ (h m hm).1, fun m hm ↦ (h m hm).2⟩⟩

theorem distinct_arr {items : List Json} : (arr items).Distinct ↔ ∀ v ∈ items, v.Distinct := by
  rw [Distinct, each_arr_iff]
  exact ⟨And.right, fun h ↦ ⟨trivial, h⟩⟩

theorem distinct_obj {members : List (Text × Json)} :
    (obj members).Distinct ↔ (members.map Prod.fst).Nodup ∧ ∀ m ∈ members, m.2.Distinct :=
  each_obj_iff

theorem short_arr {items : List Json} : (arr items).Short ↔ ∀ v ∈ items, v.Short := by
  rw [Short, each_arr_iff]
  exact ⟨And.right, fun h ↦ ⟨trivial, h⟩⟩

theorem short_obj {members : List (Text × Json)} :
    (obj members).Short ↔ ∀ m ∈ members, m.2.Short := by
  rw [Short, each_obj_iff]
  exact ⟨And.right, fun h ↦ ⟨trivial, h⟩⟩

/-- A value that is read back as it was written, whatever its nesting. -/
structure Storable (v : Json) : Prop where
  unsplit : v.Unsplit
  distinct : v.Distinct
  short : v.Short

theorem storable_str {t : Text} (h : t.Unsplit) : (str t).Storable := ⟨h, trivial, trivial⟩

theorem storable_int {i : Int} (h : (int i).ShortHere) : (int i).Storable := ⟨trivial, trivial, h⟩

theorem storable_arr {items : List Json} (h : ∀ v ∈ items, v.Storable) : (arr items).Storable where
  unsplit := unsplit_arr.mpr fun v hv ↦ (h v hv).unsplit
  distinct := distinct_arr.mpr fun v hv ↦ (h v hv).distinct
  short := short_arr.mpr fun v hv ↦ (h v hv).short

theorem storable_obj {members : List (Text × Json)} (hkeys : (members.map Prod.fst).Nodup)
    (h : ∀ m ∈ members, m.1.Unsplit ∧ m.2.Storable) : (obj members).Storable where
  unsplit := unsplit_obj.mpr fun m hm ↦ ⟨(h m hm).1, (h m hm).2.unsplit⟩
  distinct := distinct_obj.mpr ⟨hkeys, fun m hm ↦ (h m hm).2.distinct⟩
  short := short_obj.mpr fun m hm ↦ (h m hm).2.short

/-! ## Nesting -/

theorem depthItems_le_iff {items : List Json} {n : Nat} :
    depthItems items ≤ n ↔ ∀ v ∈ items, v.depth ≤ n := by
  induction items with
  | nil => simp [depthItems]
  | cons v items ih => rw [depthItems, Nat.max_le, ih, List.forall_mem_cons]

theorem depthMembers_le_iff {members : List (Text × Json)} {n : Nat} :
    depthMembers members ≤ n ↔ ∀ m ∈ members, m.2.depth ≤ n := by
  induction members with
  | nil => simp [depthMembers]
  | cons m members ih => rw [depthMembers, Nat.max_le, ih, List.forall_mem_cons]

/-! ## Members -/

theorem mem_of_member? {key : Text} {v : Json} {members : List (Text × Json)}
    (h : member? key members = some v) : (key, v) ∈ members := by
  induction members with
  | nil => cases h
  | cons m rest ih =>
    obtain ⟨k, w⟩ := m
    rw [member?] at h
    split at h
    · next hk =>
      rw [← Option.some.inj h, hk]
      exact List.mem_cons_self
    · exact List.mem_cons_of_mem _ (ih h)

theorem member?_eq_some_iff {key : Text} {v : Json} {members : List (Text × Json)}
    (hkeys : (members.map Prod.fst).Nodup) : member? key members = some v ↔ (key, v) ∈ members := by
  refine ⟨mem_of_member?, fun h ↦ ?_⟩
  induction members with
  | nil => cases h
  | cons m rest ih =>
    obtain ⟨k, w⟩ := m
    rw [List.map_cons, List.nodup_cons] at hkeys
    rcases List.mem_cons.mp h with heq | h
    · cases heq
      rw [member?, if_pos rfl]
    · have hne : k ≠ key := by
        rintro rfl
        exact hkeys.1 (List.mem_map.mpr ⟨(k, v), h, rfl⟩)
      rw [member?, if_neg hne, ih hkeys.2 h]

theorem member?_eq_of_perm {key : Text} {members members' : List (Text × Json)}
    (hkeys : (members.map Prod.fst).Nodup) (h : members.Perm members') :
    member? key members = member? key members' := by
  have hkeys' : (members'.map Prod.fst).Nodup := (h.map Prod.fst).nodup_iff.mp hkeys
  refine Option.ext fun v ↦ ?_
  rw [member?_eq_some_iff hkeys, member?_eq_some_iff hkeys', h.mem_iff]

theorem member?_filter {key : Text} (keep : Text → Bool) (hkeep : keep key = true)
    (members : List (Text × Json)) :
    member? key (members.filter fun m ↦ keep m.1) = member? key members := by
  induction members with
  | nil => rfl
  | cons m rest ih =>
    obtain ⟨k, v⟩ := m
    rw [List.filter_cons]
    by_cases hk : k = key
    · subst hk
      rw [if_pos hkeep, member?, if_pos rfl, member?, if_pos rfl]
    · split
      · rw [member?, if_neg hk, member?, if_neg hk, ih]
      · rw [member?, if_neg hk, ih]

/-! ## Sequences of members -/

theorem setMember_of_not_mem {key : Text} {value : Json} {members : List (Text × Json)}
    (h : key ∉ members.map Prod.fst) :
    setMember key value members = members ++ [(key, value)] := by
  induction members with
  | nil => rfl
  | cons m rest ih =>
    obtain ⟨k, v⟩ := m
    rw [List.map_cons, List.mem_cons, not_or] at h
    rw [setMember, if_neg (Ne.symm h.1), ih h.2, List.cons_append]

theorem keys_setMember_of_mem {key : Text} {value : Json} {members : List (Text × Json)}
    (h : key ∈ members.map Prod.fst) :
    (setMember key value members).map Prod.fst = members.map Prod.fst := by
  induction members with
  | nil => exact absurd h List.not_mem_nil
  | cons m rest ih =>
    obtain ⟨k, v⟩ := m
    by_cases hk : k = key
    · rw [setMember, if_pos hk, List.map_cons, List.map_cons]
    · have hrest : key ∈ rest.map Prod.fst := by
        rcases List.mem_cons.mp h with h' | h'
        · exact absurd h'.symm hk
        · exact h'
      rw [setMember, if_neg hk, List.map_cons, List.map_cons, ih hrest]

theorem nodup_keys_setMember {key : Text} {value : Json} {members : List (Text × Json)}
    (h : (members.map Prod.fst).Nodup) : ((setMember key value members).map Prod.fst).Nodup := by
  by_cases hk : key ∈ members.map Prod.fst
  · rwa [keys_setMember_of_mem hk]
  · rw [setMember_of_not_mem hk, List.map_append, List.nodup_append]
    refine ⟨h, List.nodup_singleton key, fun a ha b hb hab ↦ hk ?_⟩
    have hkey : b = key := List.mem_singleton.mp hb
    rwa [← hkey, ← hab]

theorem mem_setMember {key : Text} {value : Json} {members : List (Text × Json)}
    {m : Text × Json} (h : m ∈ setMember key value members) :
    m = (key, value) ∨ m ∈ members := by
  induction members with
  | nil => exact .inl (List.mem_singleton.mp h)
  | cons m' rest ih =>
    obtain ⟨k, v⟩ := m'
    rw [setMember] at h
    split at h
    · next hk =>
      rcases List.mem_cons.mp h with h' | h'
      · exact .inl (by rw [h', hk])
      · exact .inr (List.mem_cons_of_mem _ h')
    · rcases List.mem_cons.mp h with h' | h'
      · exact .inr (h' ▸ List.mem_cons_self)
      · exact (ih h').imp_right (List.mem_cons_of_mem _)

/-- Setting members one after the other, on top of those that are there. -/
def setMembers (done members : List (Text × Json)) : List (Text × Json) :=
  members.foldl (fun done (k, v) ↦ setMember k v done) done

theorem ofMembers_eq (members : List (Text × Json)) :
    ofMembers members = .obj (setMembers [] members) := rfl

theorem setMembers_of_nodup {done members : List (Text × Json)}
    (h : ((done ++ members).map Prod.fst).Nodup) : setMembers done members = done ++ members := by
  induction members generalizing done with
  | nil => rw [List.append_nil]; rfl
  | cons m rest ih =>
    obtain ⟨k, v⟩ := m
    have hk : k ∉ done.map Prod.fst := by
      rw [List.map_append, List.map_cons, List.nodup_append] at h
      exact fun hmem ↦ h.2.2 k hmem k List.mem_cons_self rfl
    have hstep : setMembers done ((k, v) :: rest) = setMembers (setMember k v done) rest := rfl
    rw [hstep, setMember_of_not_mem hk, ih (by rwa [List.append_assoc]), List.append_assoc,
      List.singleton_append]

theorem ofMembers_of_nodup {members : List (Text × Json)} (h : (members.map Prod.fst).Nodup) :
    ofMembers members = .obj members := by
  rw [ofMembers_eq, setMembers_of_nodup (by simpa using h), List.nil_append]

theorem nodup_keys_setMembers {done : List (Text × Json)} (members : List (Text × Json))
    (h : (done.map Prod.fst).Nodup) : ((setMembers done members).map Prod.fst).Nodup := by
  induction members generalizing done with
  | nil => exact h
  | cons m rest ih => exact ih (nodup_keys_setMember h)

theorem mem_setMembers {done members : List (Text × Json)} {m : Text × Json}
    (h : m ∈ setMembers done members) : m ∈ done ∨ m ∈ members := by
  induction members generalizing done with
  | nil => exact .inl h
  | cons m' rest ih =>
    rcases ih h with h' | h'
    · rcases mem_setMember h' with rfl | h''
      · exact .inr List.mem_cons_self
      · exact .inl h''
    · exact .inr (List.mem_cons_of_mem _ h')

theorem storable_ofMembers {members : List (Text × Json)}
    (h : ∀ m ∈ members, m.1.Unsplit ∧ m.2.Storable) : (ofMembers members).Storable := by
  rw [ofMembers_eq]
  refine storable_obj (nodup_keys_setMembers members List.nodup_nil) fun m hm ↦ ?_
  rcases mem_setMembers hm with hm | hm
  · cases hm
  · exact h m hm

end Json

end RouteCatalog
