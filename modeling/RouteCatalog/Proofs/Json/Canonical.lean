import Mathlib.Data.List.Perm.Basic
import RouteCatalog.Proofs.Json.Compact
import RouteCatalog.Proofs.Json.Written

/-!
# The canonical text forgets the order of members and nothing else

Two values have one canonical text exactly when they differ in the order of members only, at any
level (`canonical_eq_iff`). Sorting does not separate such values because the keys of an object
differ, so there is one sorted order; it does not join others because the sorted members are the
members in some order. Nor does sorting change which values can be written
(`canonical_eq_ok_iff`).
-/

namespace RouteCatalog.Json

/-- The two values differ in the order of members at most, at every level. -/
inductive Reordered : Json → Json → Prop
  | scalar {v : Json} (hv : v.isScalar = true) : Reordered v v
  /-- The items of arrays are compared one by one. -/
  | arr {items items' : List Json} (hitems : List.Forall₂ Reordered items items') :
    Reordered (.arr items) (.arr items')
  /-- The members of objects are compared one by one once they are put in order. -/
  | obj {members middle members' : List (Text × Json)}
    (hkeys : members.map Prod.fst = middle.map Prod.fst)
    (hvalues : List.Forall₂ Reordered (members.map Prod.snd) (middle.map Prod.snd))
    (hperm : middle.Perm members') : Reordered (.obj members) (.obj members')

/-! ## Sorting -/

theorem sortedItems_eq_map (items : List Json) : sortedItems items = items.map sorted := by
  induction items with
  | nil => rfl
  | cons v rest ih => rw [sortedItems, ih, List.map_cons]

theorem sortedMembers_eq_map (members : List (Text × Json)) :
    sortedMembers members = members.map fun m ↦ (m.1, m.2.sorted) := by
  induction members with
  | nil => rfl
  | cons m rest ih => rw [sortedMembers, ih, List.map_cons]

theorem sorted_arr (items : List Json) : sorted (.arr items) = .arr (items.map sorted) := by
  rw [sorted, sortedItems_eq_map]

theorem sorted_obj (members : List (Text × Json)) :
    sorted (.obj members) = .obj (sortMembers (members.map fun m ↦ (m.1, m.2.sorted))) := by
  rw [sorted, sortedMembers_eq_map]

theorem sorted_of_isScalar {v : Json} (hv : v.isScalar = true) : v.sorted = v := by
  cases v with
  | arr | obj => cases hv
  | _ => rfl

theorem sortMembers_perm (members : List (Text × Json)) : (sortMembers members).Perm members :=
  List.mergeSort_perm members _

theorem pairwise_sortMembers (members : List (Text × Json)) :
    (sortMembers members).Pairwise fun a b ↦ Text.le a.1 b.1 = true := by
  refine @List.pairwise_mergeSort (Text × Json) (fun a b ↦ Text.le a.1 b.1)
    (fun a b c ↦ Text.le_trans) (fun a b ↦ ?_) members
  rw [Bool.or_eq_true]
  exact Text.le_total a.1 b.1

theorem sortMembers_eq_of_perm {members members' : List (Text × Json)}
    (hkeys : (members.map Prod.fst).Nodup) (h : members.Perm members') :
    sortMembers members = sortMembers members' := by
  have hperm : (sortMembers members).Perm (sortMembers members') :=
    (sortMembers_perm members).trans (h.trans (sortMembers_perm members').symm)
  refine hperm.eq_of_pairwise (fun a b ha hb hab hba ↦ ?_) (pairwise_sortMembers members)
    (pairwise_sortMembers members')
  have ha' : a ∈ members := (sortMembers_perm members).mem_iff.mp ha
  have hb' : b ∈ members := h.mem_iff.mpr ((sortMembers_perm members').mem_iff.mp hb)
  exact List.inj_on_of_nodup_map hkeys ha' hb' (Text.le_antisymm hab hba)

theorem unsplit_sorted {v : Json} (hv : v.Unsplit) : v.sorted.Unsplit := by
  induction v using Json.induct with
  | scalar v hscalar => rwa [sorted_of_isScalar hscalar]
  | arr items ih =>
    rw [unsplit_arr] at hv
    rw [sorted_arr, unsplit_arr]
    intro w hw
    obtain ⟨v, hmem, rfl⟩ := List.mem_map.mp hw
    exact ih v hmem (hv v hmem)
  | obj members ih =>
    rw [unsplit_obj] at hv
    rw [sorted_obj, unsplit_obj]
    intro m hm
    obtain ⟨m', hmem, rfl⟩ := List.mem_map.mp ((sortMembers_perm _).mem_iff.mp hm)
    exact ⟨(hv m' hmem).1, ih m' hmem (hv m' hmem).2⟩

theorem short_sorted_iff {v : Json} : v.sorted.Short ↔ v.Short := by
  induction v using Json.induct with
  | scalar v hscalar => rw [sorted_of_isScalar hscalar]
  | arr items ih =>
    rw [sorted_arr, short_arr, short_arr, List.forall_mem_map]
    exact forall₂_congr fun v hv ↦ ih v hv
  | obj members ih =>
    rw [sorted_obj, short_obj, short_obj]
    simp only [(sortMembers_perm _).mem_iff, List.forall_mem_map]
    exact forall₂_congr fun m hm ↦ ih m hm

theorem depth_sorted_le_iff {v : Json} {n : Nat} : v.sorted.depth ≤ n ↔ v.depth ≤ n := by
  induction v using Json.induct generalizing n with
  | scalar v hscalar => rw [sorted_of_isScalar hscalar]
  | arr items ih =>
    rw [sorted_arr, depth, depth]
    cases n with
    | zero => simp
    | succ n =>
      rw [Nat.add_le_add_iff_right, Nat.add_le_add_iff_right, depthItems_le_iff,
        depthItems_le_iff, List.forall_mem_map]
      exact forall₂_congr fun v hv ↦ ih v hv
  | obj members ih =>
    rw [sorted_obj, depth, depth]
    cases n with
    | zero => simp
    | succ n =>
      rw [Nat.add_le_add_iff_right, Nat.add_le_add_iff_right, depthMembers_le_iff,
        depthMembers_le_iff]
      simp only [(sortMembers_perm _).mem_iff, List.forall_mem_map]
      exact forall₂_congr fun m hm ↦ ih m hm

theorem canonical_eq_ok_iff {v : Json} {t : Text} :
    v.canonical = .ok t ↔
      (v.Short ∧ v.depth ≤ Writing.line.maxDepth) ∧ v.sorted.compact = t := by
  rw [canonical, write_eq_ok_iff, short_sorted_iff, depth_sorted_le_iff]
  rfl

/-! ## Values that differ in the order of members -/

theorem eq_arr_of_sorted {v : Json} {items : List Json} (h : v.sorted = .arr items) :
    ∃ items', v = .arr items' ∧ items = items'.map sorted := by
  cases v with
  | arr items' =>
    rw [sorted_arr] at h
    exact ⟨items', rfl, (Json.arr.inj h).symm⟩
  | _ => cases h

theorem eq_obj_of_sorted {v : Json} {members : List (Text × Json)} (h : v.sorted = .obj members) :
    ∃ members', v = .obj members' ∧
      members = sortMembers (members'.map fun m ↦ (m.1, m.2.sorted)) := by
  cases v with
  | obj members' =>
    rw [sorted_obj] at h
    exact ⟨members', rfl, (Json.obj.inj h).symm⟩
  | _ => cases h

/-- Lists whose items agree one by one, when that means that the items have one image. -/
theorem forall₂_iff_map_eq {α β : Type} {R : α → α → Prop} {f : α → β} {l l' : List α}
    (h : ∀ a ∈ l, ∀ b ∈ l', R a b ↔ f a = f b) : List.Forall₂ R l l' ↔ l.map f = l'.map f := by
  induction l generalizing l' with
  | nil => cases l' <;> simp
  | cons a l ih =>
    cases l' with
    | nil => simp
    | cons b l' =>
      rw [List.forall₂_cons, List.map_cons, List.map_cons, List.cons.injEq,
        h a List.mem_cons_self b List.mem_cons_self,
        ih fun c hc d hd ↦ h c (List.mem_cons_of_mem a hc) d (List.mem_cons_of_mem b hd)]

/-- Members with sorted values agree when the keys do and the sorted values do. -/
theorem map_sorted_eq_iff {members middle : List (Text × Json)} :
    (members.map fun m ↦ (m.1, m.2.sorted)) = (middle.map fun m ↦ (m.1, m.2.sorted)) ↔
      members.map Prod.fst = middle.map Prod.fst ∧
        (members.map Prod.snd).map sorted = (middle.map Prod.snd).map sorted := by
  rw [List.map_map, List.map_map]
  constructor
  · intro h
    have hkeys := congrArg (List.map Prod.fst) h
    have hvalues := congrArg (List.map Prod.snd) h
    rw [List.map_map, List.map_map] at hkeys hvalues
    exact ⟨hkeys, hvalues⟩
  · rintro ⟨hkeys, hvalues⟩
    rw [← List.zip_map', ← List.zip_map']
    exact congrArg₂ List.zip hkeys hvalues

/-- Sorting tells what differs from the value in more than the order of members. -/
def Compares (v : Json) : Prop := ∀ w : Json, w.Distinct → (v.sorted = w.sorted ↔ Reordered v w)

theorem compares_of_isScalar {v : Json} (hv : v.isScalar = true) : v.Compares := by
  intro w _
  rw [sorted_of_isScalar hv]
  constructor
  · intro h
    cases w with
    | arr | obj => rw [h] at hv; cases hv
    | null | bool | int | float | str => rw [h]; exact .scalar rfl
  · intro h
    cases h with
    | scalar => exact (sorted_of_isScalar hv).symm
    | arr | obj => cases hv

theorem compares_arr {items : List Json} (h : ∀ v ∈ items, v.Compares) :
    (arr items).Compares := by
  intro w hw
  have hitems (items' : List Json) (hw : (arr items').Distinct) :
      List.Forall₂ Reordered items items' ↔ items.map sorted = items'.map sorted :=
    forall₂_iff_map_eq fun a ha b hb ↦ (h a ha b (distinct_arr.mp hw b hb)).symm
  rw [sorted_arr]
  constructor
  · intro hsorted
    obtain ⟨items', rfl, heq⟩ := eq_arr_of_sorted hsorted.symm
    exact .arr ((hitems items' hw).mpr heq)
  · intro hreordered
    cases hreordered with
    | scalar hscalar => cases hscalar
    | arr hreordered => rw [sorted_arr, (hitems _ hw).mp hreordered]

theorem compares_obj {members : List (Text × Json)} (hkeys : (members.map Prod.fst).Nodup)
    (h : ∀ m ∈ members, m.2.Compares) : (obj members).Compares := by
  intro w hw
  have hvalues (members' middle : List (Text × Json)) (hw : (obj members').Distinct)
      (hperm : middle.Perm members') :
      List.Forall₂ Reordered (members.map Prod.snd) (middle.map Prod.snd) ↔
        (members.map Prod.snd).map sorted = (middle.map Prod.snd).map sorted := by
    refine forall₂_iff_map_eq fun a ha b hb ↦ ?_
    obtain ⟨m, hm, rfl⟩ := List.mem_map.mp ha
    obtain ⟨m', hm', rfl⟩ := List.mem_map.mp hb
    exact (h m hm m'.2 ((distinct_obj.mp hw).2 m' (hperm.mem_iff.mp hm'))).symm
  -- Sorted members depend on their order no more, because the keys differ.
  have hmapped : ((members.map fun m ↦ (m.1, m.2.sorted)).map Prod.fst).Nodup := by
    rw [List.map_map]
    exact hkeys
  rw [sorted_obj]
  constructor
  · intro hsorted
    obtain ⟨members', rfl, heq⟩ := eq_obj_of_sorted hsorted.symm
    -- sorting keeps the members, so those of the other object are these in some order
    have hperm : (members.map fun m ↦ (m.1, m.2.sorted)).Perm
        (members'.map fun m ↦ (m.1, m.2.sorted)) :=
      (sortMembers_perm _).symm.trans (heq ▸ sortMembers_perm _)
    obtain ⟨middle, hmiddle, hmem⟩ := (congrFun₂ (List.eq_map_comp_perm _) _ _).mpr hperm
    obtain ⟨hkeys, hsorted⟩ := map_sorted_eq_iff.mp hmiddle
    exact .obj hkeys ((hvalues members' middle hw hmem).mpr hsorted) hmem
  · intro hreordered
    cases hreordered with
    | scalar hscalar => cases hscalar
    | obj hkeys hreordered hperm =>
      have hmiddle := map_sorted_eq_iff.mpr ⟨hkeys, (hvalues _ _ hw hperm).mp hreordered⟩
      rw [sorted_obj, sortMembers_eq_of_perm hmapped]
      rw [hmiddle]
      exact hperm.map _

theorem compares {v : Json} (hv : v.Distinct) : v.Compares := by
  induction v using Json.induct with
  | scalar v hscalar => exact compares_of_isScalar hscalar
  | arr items ih =>
    rw [distinct_arr] at hv
    exact compares_arr fun v hmem ↦ ih v hmem (hv v hmem)
  | obj members ih =>
    rw [distinct_obj] at hv
    exact compares_obj hv.1 fun m hm ↦ ih m hm (hv.2 m hm)

@[refl] theorem Reordered.refl (v : Json) : Reordered v v := by
  induction v using Json.induct with
  | scalar v hv => exact .scalar hv
  | arr items ih => exact .arr (List.forall₂_same.mpr ih)
  | obj members ih =>
    refine .obj rfl (List.forall₂_same.mpr fun v hv ↦ ?_) (List.Perm.refl members)
    obtain ⟨m, hm, rfl⟩ := List.mem_map.mp hv
    exact ih m hm

theorem Reordered.of_forall₂ {members members' : List (Text × Json)}
    (hkeys : members.map Prod.fst = members'.map Prod.fst)
    (hvalues : List.Forall₂ Reordered (members.map Prod.snd) (members'.map Prod.snd)) :
    Reordered (.obj members) (.obj members') :=
  .obj hkeys hvalues (List.Perm.refl members')

theorem Reordered.eq_of_isScalar {v w : Json} (h : Reordered v w) (hv : v.isScalar = true) :
    v = w := by
  cases h with
  | scalar => rfl
  | arr | obj => cases hv

theorem reordered_arr_iff {items items' : List Json} :
    Reordered (.arr items) (.arr items') ↔ List.Forall₂ Reordered items items' := by
  refine ⟨fun h ↦ ?_, .arr⟩
  cases h with
  | scalar hscalar => cases hscalar
  | arr hitems => exact hitems

/-- Objects that differ in the order of members have like values at every key. -/
theorem Reordered.member? {members members' : List (Text × Json)}
    (h : Reordered (.obj members) (.obj members')) (hkeys : (members'.map Prod.fst).Nodup)
    (key : Text) : Option.Rel Reordered (member? key members) (member? key members') := by
  cases h with
  | scalar hscalar => cases hscalar
  | @obj _ middle _ hmiddle hvalues hperm =>
    rw [← member?_eq_of_perm ((hperm.map Prod.fst).nodup_iff.mpr hkeys) hperm]
    clear hperm
    induction members generalizing middle with
    | nil =>
      obtain rfl : middle = [] := List.map_eq_nil_iff.mp hmiddle.symm
      exact .none
    | cons m members ih =>
      cases middle with
      | nil => cases hmiddle
      | cons m' middle =>
        obtain ⟨k, v⟩ := m
        obtain ⟨k', v'⟩ := m'
        rw [List.map_cons, List.map_cons, List.forall₂_cons] at hvalues
        obtain ⟨rfl, hrest⟩ := List.cons.inj hmiddle
        by_cases hk : k = key
        · rw [Json.member?, if_pos hk, Json.member?, if_pos hk]
          exact .some hvalues.1
        · rw [Json.member?, if_neg hk, Json.member?, if_neg hk]
          exact ih hrest hvalues.2

/-- **The canonical text forgets the order of members and nothing else.** -/
theorem canonical_eq_iff {v w : Json} (hv : v.Storable) (hw : w.Storable)
    (hdepth : v.depth ≤ Writing.line.maxDepth) (hdepth' : w.depth ≤ Writing.line.maxDepth) :
    v.canonical = w.canonical ↔ Reordered v w := by
  have hform : v.canonical = .ok v.sorted.compact :=
    canonical_eq_ok_iff.mpr ⟨⟨hv.short, hdepth⟩, rfl⟩
  have hform' : w.canonical = .ok w.sorted.compact :=
    canonical_eq_ok_iff.mpr ⟨⟨hw.short, hdepth'⟩, rfl⟩
  rw [hform, hform', Except.ok.injEq, ← compares hv.distinct _ hw.distinct]
  constructor
  · exact compact_injective (unsplit_sorted hv.unsplit) (unsplit_sorted hw.unsplit)
  · intro h
    rw [h]

end RouteCatalog.Json
