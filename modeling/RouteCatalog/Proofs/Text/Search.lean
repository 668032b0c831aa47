import RouteCatalog.Proofs.Route.Declaration

/-!
# Searching from an offset

The first place at or after an offset where a pattern is recognised, by offsets in the whole text
(`Pattern.from?`). The occurrences of a pattern are found by searching from the start of the text
and, after each occurrence, from its end (`occurrencesFrom_drop`).
-/

namespace RouteCatalog.Pattern

variable {α : Type} {p : Pattern α} {content : Text} {k : Nat} {o : Occurrence α}

/-- The occurrence at an offset, if the pattern is recognised there. -/
def at? (p : Pattern α) (content : Text) (i : Nat) : Option (Occurrence α) :=
  (p (content.take i).getLast? (content.drop i)).map fun (value, rest) ↦
    ⟨i, content.length - i - rest.length, value⟩

/-- The first occurrence that starts at or after an offset. -/
def from? (p : Pattern α) (content : Text) (k : Nat) : Option (Occurrence α) :=
  (List.range' k (content.length - k)).findSome? (p.at? content)

theorem from?_of_length_le (h : content.length ≤ k) : p.from? content k = none := by
  rw [from?, Nat.sub_eq_zero_of_le h]
  rfl

theorem from?_of_lt (h : k < content.length) :
    p.from? content k = (p.at? content k).or (p.from? content (k + 1)) := by
  obtain ⟨n, hn⟩ := Nat.exists_eq_add_of_lt h
  rw [from?, from?, show content.length - k = n + 1 by omega,
    show content.length - (k + 1) = n by omega, List.range'_succ, List.findSome?_cons]
  cases p.at? content k <;> rfl

theorem from?_eq_none_iff :
    p.from? content k = none ↔ ∀ i, k ≤ i → i < content.length → p.at? content i = none := by
  rw [from?, List.findSome?_eq_none_iff]
  constructor
  · intro h i hk hi
    exact h i (List.mem_range'_1.mpr ⟨hk, by omega⟩)
  · intro h i hi
    obtain ⟨hk, hlt⟩ := List.mem_range'_1.mp hi
    exact h i hk (by omega)

/-- An occurrence at an offset lies in the text, and an end of the text follows it. -/
theorem at?_eq_some (hp : p.LeavesEnd) {i : Nat} (h : p.at? content i = some o) :
    o.start = i ∧ (i ≤ content.length → i ≤ o.stop ∧ o.stop ≤ content.length) ∧
      p (content.take i).getLast? (content.drop i) = some (o.value, content.drop o.stop) := by
  obtain ⟨⟨value, rest⟩, hfound, rfl⟩ := Option.map_eq_some_iff.mp h
  have hend := hp hfound
  have hlength := hend.length_le
  rw [List.length_drop] at hlength
  refine ⟨rfl, fun hi ↦ ?_, ?_⟩
  · simp only [Occurrence.stop]
    omega
  · have hrest := List.suffix_iff_eq_drop.mp hend
    rw [List.length_drop, List.drop_drop] at hrest
    rw [hfound]
    exact congrArg (fun rest ↦ some (value, rest)) hrest

theorem from?_eq_some (hp : p.LeavesEnd) (h : p.from? content k = some o) :
    k ≤ o.start ∧ o.start < content.length ∧ o.start ≤ o.stop ∧ o.stop ≤ content.length ∧
      p.at? content o.start = some o := by
  obtain ⟨i, hi, hfound⟩ := List.exists_of_findSome?_eq_some h
  obtain ⟨hk, hlt⟩ := List.mem_range'_1.mp hi
  obtain ⟨rfl, hinside, -⟩ := at?_eq_some hp hfound
  have := hinside (by omega)
  exact ⟨hk, by omega, this.1, this.2, hfound⟩

theorem first?_drop (hp : p.LeavesEnd) (content : Text) (k : Nat) :
    p.first? (content.take k).getLast? (content.drop k) =
      (p.from? content k).map fun o ↦ (o.value, content.drop o.stop) := by
  induction hn : content.length - k generalizing k with
  | zero =>
    rw [from?_of_length_le (by omega), List.drop_eq_nil_of_le (by omega)]
    rfl
  | succ n ih =>
    have hk : k < content.length := by omega
    have htake : (content.take (k + 1)).getLast? = some content[k] := by
      rw [List.take_succ_eq_append_getElem hk, List.getLast?_concat]
    rw [from?_of_lt hk, List.drop_eq_getElem_cons hk, first?, ← List.drop_eq_getElem_cons hk]
    cases hat : p.at? content k with
    | some o =>
      obtain ⟨-, -, hfound⟩ := at?_eq_some hp hat
      rw [hfound]
      rfl
    | none =>
      rw [Option.map_eq_none_iff.mp hat, Option.none_or, ← ih (k + 1) (by omega), htake]

/-- The text from an offset on is the occurrence there and what follows it. -/
theorem drop_of_at? (hp : p.LeavesEnd) (hk : k ≤ content.length) (h : p.at? content k = some o) :
    ∃ found, content.drop k = found ++ content.drop o.stop ∧ found.length = o.length ∧
      (content.take o.stop).getLast? = found.getLast?.or (content.take k).getLast? := by
  obtain ⟨rfl, hinside, -⟩ := at?_eq_some hp h
  obtain ⟨-, hstop⟩ := hinside hk
  refine ⟨(content.drop o.start).take o.length, ?_, ?_, ?_⟩
  · rw [Occurrence.stop, ← List.drop_drop, List.take_append_drop]
  · rw [Occurrence.stop] at hstop
    rw [List.length_take, List.length_drop]
    omega
  · rw [Occurrence.stop, List.take_add, List.getLast?_append]

/-- The occurrences from an offset on are the first one from there and those from its end on. -/
theorem occurrencesFrom_drop (hp : p.LeavesEnd)
    (hshort : ∀ {before t v rest}, p before t = some (v, rest) → rest.length < t.length)
    (content : Text) (k : Nat) :
    p.occurrencesFrom 0 k (content.take k).getLast? (content.drop k) =
      match p.from? content k with
      | none => []
      | some o => o ::
        p.occurrencesFrom 0 o.stop (content.take o.stop).getLast? (content.drop o.stop) := by
  induction hn : content.length - k generalizing k with
  | zero =>
    rw [from?_of_length_le (by omega), List.drop_eq_nil_of_le (by omega)]
    rfl
  | succ n ih =>
    have hk : k < content.length := by omega
    rw [from?_of_lt hk]
    cases hat : p.at? content k with
    | some o =>
      obtain ⟨rfl, -, hfound⟩ := at?_eq_some hp hat
      obtain ⟨found, hsplit, hlength, hbefore⟩ := drop_of_at? hp hk.le hat
      rw [hsplit] at hfound
      have hne : found ≠ [] := by
        rintro rfl
        exact Nat.lt_irrefl _ (hshort hfound)
      rw [hsplit, occurrencesFrom_of_found hne hfound, Option.some_or, ← hbefore, hlength]
      rfl
    | none =>
      rw [Option.none_or, ← ih (k + 1) (by omega), List.take_succ_eq_append_getElem hk,
        List.getLast?_concat, List.drop_eq_getElem_cons hk, occurrencesFrom,
        ← List.drop_eq_getElem_cons hk, Option.map_eq_none_iff.mp hat]

theorem at?_of_mem_occurrences (hp : p.LeavesEnd)
    (hshort : ∀ {before t v rest}, p before t = some (v, rest) → rest.length < t.length)
    (ho : o ∈ p.occurrences content) : p.at? content o.start = some o := by
  have hfrom (k : Nat)
      (ho : o ∈ p.occurrencesFrom 0 k (content.take k).getLast? (content.drop k)) :
      p.at? content o.start = some o := by
    induction hn : content.length - k using Nat.strongRecOn generalizing k with
    | ind n ih =>
      rw [occurrencesFrom_drop hp hshort] at ho
      cases hfirst : p.from? content k with
      | none =>
        rw [hfirst] at ho
        cases ho
      | some first =>
        rw [hfirst] at ho
        obtain ⟨hk, hlt, hle, hstop, hat⟩ := from?_eq_some hp hfirst
        obtain ⟨-, -, hfound⟩ := at?_eq_some hp hat
        have hshorter := hshort hfound
        rw [List.length_drop, List.length_drop] at hshorter
        rcases List.mem_cons.mp ho with rfl | hrest
        · exact hat
        · exact ih (content.length - first.stop) (by omega) first.stop hrest rfl
  exact hfrom 0 ho

/-- A pattern whose values are changed has the same occurrences, with changed values. -/
theorem occurrencesFrom_map {β : Type} (p : Pattern α) (f : α → β) (skip start : Nat)
    (before : Option CodePoint) (t : Text) :
    occurrencesFrom (fun before t ↦ (p before t).map fun (v, rest) ↦ (f v, rest)) skip start before
      t = (p.occurrencesFrom skip start before t).map fun o ↦ ⟨o.start, o.length, f o.value⟩ := by
  induction t generalizing skip start before with
  | nil => cases skip <;> rfl
  | cons c t ih =>
    cases skip with
    | succ skip => exact ih skip (start + 1) (some c)
    | zero =>
      rw [occurrencesFrom, occurrencesFrom]
      cases p before (c :: t) with
      | none => exact ih 0 (start + 1) (some c)
      | some found =>
        exact congrArg (List.cons ⟨start, t.length + 1 - found.2.length, f found.1⟩)
          (ih _ (start + 1) (some c))

end RouteCatalog.Pattern
