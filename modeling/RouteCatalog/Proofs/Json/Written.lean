import RouteCatalog.Json.Written
import RouteCatalog.Proofs.Json.Value
import RouteCatalog.Proofs.Number.Digits

/-!
# Which values can be written

A value has a text exactly when its integers are short enough and it does not nest too deeply
(`write_eq_ok_iff`). The search for a fault goes through the value once, with the levels that are
left, and both conditions are read off it (`fault?_eq_none_iff`).
-/

namespace RouteCatalog.Json

variable {w : Writing} {levels : Nat}

theorem isLong_eq_false_iff {i : Int} : isLong i = false ↔ (int i).ShortHere := by
  rw [isLong, decide_eq_false_iff_not, Nat.not_lt]
  rfl

/-- The least integer that is too long to be written. -/
def leastLong : Int := Int.ofNat (Nat.pow 10 Numeral.maxDigits)

theorem isLong_leastLong : isLong leastLong = true := by
  have hdigits {k : Nat} (hk : 0 < k) :
      k < (Nat.toDigits 10 (Int.ofNat (Nat.pow 10 k)).natAbs).length := by
    rw [Int.natAbs_ofNat', Numeral.lt_length_toDigits_iff hk]
  rw [isLong, leastLong]
  exact decide_eq_true (hdigits (by decide))

theorem itemsFault?_eq_none_iff {items : List Json} :
    itemsFault? w levels items = none ↔ ∀ v ∈ items, fault? w levels v = none := by
  induction items with
  | nil => simp [itemsFault?]
  | cons v rest ih => rw [itemsFault?, Option.or_eq_none_iff, ih, List.forall_mem_cons]

theorem membersFault?_eq_none_iff {members : List (Text × Json)} :
    membersFault? w levels members = none ↔ ∀ m ∈ members, fault? w levels m.2 = none := by
  induction members with
  | nil => simp [membersFault?]
  | cons m rest ih => rw [membersFault?, Option.or_eq_none_iff, ih, List.forall_mem_cons]

/-- There is no fault when every integer is short and the levels suffice. -/
theorem fault?_eq_none_iff {v : Json} :
    fault? w levels v = none ↔ v.Short ∧ v.depth ≤ levels := by
  induction v using Json.induct generalizing levels with
  | scalar v hv =>
    cases v with
    | int i =>
      have hshort : (int i).Short ↔ isLong i = false := isLong_eq_false_iff.symm
      rw [fault?, hshort]
      cases isLong i with
      | false => simp [depth]
      | true => simp
    | null | bool | float | str => exact iff_of_true rfl ⟨trivial, Nat.zero_le _⟩
    | arr | obj => cases hv
  | arr items ih =>
    rw [fault?, short_arr]
    cases levels with
    | zero => simp [depth]
    | succ levels =>
      rw [if_neg (Nat.succ_ne_zero levels), Nat.add_sub_cancel, itemsFault?_eq_none_iff, depth,
        Nat.add_le_add_iff_right, depthItems_le_iff, ← forall₂_and]
      exact forall₂_congr fun v hv ↦ ih v hv
  | obj members ih =>
    rw [fault?, short_obj]
    cases levels with
    | zero => simp [depth]
    | succ levels =>
      rw [if_neg (Nat.succ_ne_zero levels), Nat.add_sub_cancel, membersFault?_eq_none_iff, depth,
        Nat.add_le_add_iff_right, depthMembers_le_iff, ← forall₂_and]
      exact forall₂_congr fun m hm ↦ ih m hm

/-- **A value is written when its integers are short and it does not nest too deeply.** -/
theorem write_eq_ok_iff {v : Json} {t : Text} :
    write w v = .ok t ↔ (v.Short ∧ v.depth ≤ w.maxDepth) ∧ w.text v = t := by
  rw [← fault?_eq_none_iff (w := w), write]
  cases fault? w w.maxDepth v with
  | none => simp
  | some why => simp

theorem write_of_short {v : Json} (hshort : v.Short) (hdepth : v.depth ≤ w.maxDepth) :
    write w v = .ok (w.text v) := write_eq_ok_iff.mpr ⟨⟨hshort, hdepth⟩, rfl⟩

end RouteCatalog.Json
