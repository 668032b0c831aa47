import RouteCatalog.Proofs.Json.Lexeme

/-!
# The one-line text tells values apart

Two values with one text are one value (`compact_injective`), provided that neither splits a
surrogate pair. Nothing is assumed about nesting, repeated keys or long integers: the text is not
read as a whole here, only its first token is, and the induction on the value compares what is left.
-/

namespace RouteCatalog.Json

open Token (IsFront)
open Text (EndsValue)

/-! ## The first token -/

/-- The first token of the written value. -/
def firstToken : Json → Token
  | .arr _ => .opening .array
  | .obj _ => .opening .object
  | v => Token.ofScalar v

theorem compact_of_isScalar {v : Json} (hv : v.isScalar = true) : compact v = scalarText v := by
  cases v with
  | arr | obj => cases hv
  | _ => rfl

theorem firstToken_of_isScalar {v : Json} (hv : v.isScalar = true) :
    firstToken v = Token.ofScalar v := by
  cases v with
  | arr | obj => cases hv
  | _ => rfl

/-- The token of a scalar gives the scalar away, but for the digits of a long integer. -/
private theorem ofScalar_cases {v : Json} (hv : v.isScalar = true) :
    (∃ n i, v = .int i ∧ Token.ofScalar v = .longNumber n) ∨
      (∃ t, v = .str t ∧ Token.ofScalar v = .text t) ∨ Token.ofScalar v = .scalar v := by
  cases v with
  | int i =>
    rw [Token.ofScalar, Token.ofInt]
    split
    · exact .inl ⟨_, i, rfl, rfl⟩
    · exact .inr (.inr rfl)
  | str t => exact .inr (.inl ⟨t, rfl, rfl⟩)
  | arr | obj => cases hv
  | _ => exact .inr (.inr rfl)

private theorem firstToken_ne_bracket {v : Json} (hv : v.isScalar = true) (c : Container) :
    firstToken v ≠ .opening c ∧ firstToken v ≠ .closing c := by
  rw [firstToken_of_isScalar hv]
  rcases ofScalar_cases hv with ⟨n, i, -, h⟩ | ⟨t, -, h⟩ | h <;> rw [h] <;>
    exact ⟨Token.noConfusion, Token.noConfusion⟩

theorem eq_arr_of_firstToken {v : Json} (h : firstToken v = .opening .array) :
    ∃ items, v = .arr items := by
  cases v with
  | arr items => exact ⟨items, rfl⟩
  | obj => cases h
  | null | bool | int | float | str => exact absurd h (firstToken_ne_bracket rfl _).1

theorem eq_obj_of_firstToken {v : Json} (h : firstToken v = .opening .object) :
    ∃ members, v = .obj members := by
  cases v with
  | obj members => exact ⟨members, rfl⟩
  | arr => cases h
  | null | bool | int | float | str => exact absurd h (firstToken_ne_bracket rfl _).1

theorem firstToken_ne_closing (v : Json) (c : Container) : firstToken v ≠ .closing c := by
  intro h
  cases v with
  | arr | obj => cases h
  | null | bool | int | float | str => exact (firstToken_ne_bracket rfl _).2 h

/-- What is left of the one-line text of a container behind its first character. -/
def compactTail : Json → Text
  | .arr [] => "]"
  | .arr (v :: rest) => compact v ++ compactItems rest
  | .obj [] => "\x7d"
  | .obj ((k, v) :: rest) => quote k ++ ": " ++ compact v ++ compactMembers rest
  | _ => []

theorem compact_arr (items : List Json) :
    compact (.arr items) = "[" ++ compactTail (.arr items) := by
  cases items with
  | nil => rfl
  | cons v rest => rfl

theorem compact_obj (members : List (Text × Json)) :
    compact (.obj members) = "\x7b" ++ compactTail (.obj members) := by
  cases members with
  | nil => rfl
  | cons m rest => rfl

theorem exists_isFront_compact {v : Json} {rest : Text} (hunsplit : v.Unsplit)
    (hrest : EndsValue rest) :
    ∃ text more, compact v ++ rest = text ++ more ∧ IsFront text (firstToken v) more := by
  cases v with
  | arr items =>
    exact ⟨_, compactTail (.arr items) ++ rest, by rw [compact_arr, List.append_assoc],
      Token.isFront_opening_array⟩
  | obj members =>
    exact ⟨_, compactTail (.obj members) ++ rest, by rw [compact_obj, List.append_assoc],
      Token.isFront_opening_object⟩
  | null | bool | int | float | str =>
    exact ⟨_, rest, rfl, Token.isFront_scalarText rfl hunsplit hrest⟩

theorem firstToken_eq_of_compact {v w : Json} {r s : Text} (hv : v.Unsplit) (hw : w.Unsplit)
    (hr : EndsValue r) (hs : EndsValue s) (h : compact v ++ r = compact w ++ s) :
    firstToken v = firstToken w := by
  obtain ⟨text, more, heq, hfront⟩ := exists_isFront_compact hv hr
  obtain ⟨text', more', heq', hfront'⟩ := exists_isFront_compact hw hs
  exact (hfront.unique hfront' (by rw [← heq, ← heq', h])).1

theorem compact_ne_closing {v : Json} {rest : Text} (hunsplit : v.Unsplit)
    (hrest : EndsValue rest) (t : Text) : compact v ++ rest ≠ "]" ++ t := by
  intro h
  obtain ⟨text, more, heq, hfront⟩ := exists_isFront_compact hunsplit hrest
  exact firstToken_ne_closing v .array
    (hfront.unique Token.isFront_closing_array (by rw [← heq, h])).1

/-! ## Scalars -/

private theorem eq_of_ofScalar {v w : Json} (hv : v.isScalar = true) (hw : w.isScalar = true)
    (htoken : Token.ofScalar v = Token.ofScalar w) (htext : scalarText v = scalarText w) :
    v = w := by
  rcases ofScalar_cases hv with ⟨n, i, rfl, hv⟩ | ⟨t, rfl, hv⟩ | hv <;>
    rcases ofScalar_cases hw with ⟨n', i', rfl, hw⟩ | ⟨t', rfl, hw⟩ | hw <;>
      rw [hv, hw] at htoken <;> cases htoken
  · rw [Text.ofInt_injective htext]
  · rfl
  · rfl

/-- The value is told from every text that starts with it. -/
def Told (v : Json) : Prop :=
  ∀ ⦃w : Json⦄ ⦃r s : Text⦄, w.Unsplit → EndsValue r → EndsValue s →
    compact v ++ r = compact w ++ s → v = w ∧ r = s

theorem told_of_isScalar {v : Json} (hv : v.isScalar = true) (hunsplit : v.Unsplit) : v.Told := by
  intro w r s hw hr hs h
  have hfirst := firstToken_eq_of_compact hunsplit hw hr hs h
  have hscalar : w.isScalar = true := by
    cases w with
    | arr | obj => exact absurd hfirst (firstToken_ne_bracket hv _).1
    | _ => rfl
  rw [compact_of_isScalar hv, compact_of_isScalar hscalar] at h
  obtain ⟨htoken, htext, hrest⟩ := (Token.isFront_scalarText hv hunsplit hr).unique
    (Token.isFront_scalarText hscalar hw hs) h
  exact ⟨eq_of_ofScalar hv hscalar htoken htext, hrest⟩

/-! ## Containers -/

theorem endsValue_compactItems (items : List Json) (rest : Text) :
    EndsValue (compactItems items ++ rest) := by
  cases items with
  | nil => exact .cons (by decide) _
  | cons v items => exact .cons (by decide) _

theorem endsValue_compactMembers (members : List (Text × Json)) (rest : Text) :
    EndsValue (compactMembers members ++ rest) := by
  cases members with
  | nil => exact .cons (by decide) _
  | cons m members => exact .cons (by decide) _

private theorem comma_ne_bracket (s t : Text) : ("]" : Text) ++ s ≠ ", " ++ t := by
  intro h
  cases h

private theorem comma_ne_brace (s t : Text) : ("\x7d" : Text) ++ s ≠ ", " ++ t := by
  intro h
  cases h

/-- The items after the first one are told, and what follows the array is. -/
theorem compactItems_append_injective {items items' : List Json} {r s : Text}
    (hitems : ∀ v ∈ items, v.Told) (hitems' : ∀ v ∈ items', v.Unsplit)
    (h : compactItems items ++ r = compactItems items' ++ s) : items = items' ∧ r = s := by
  induction items generalizing items' with
  | nil =>
    cases items' with
    | nil => exact ⟨rfl, List.append_cancel_left h⟩
    | cons w items' =>
      rw [compactItems, compactItems, List.append_assoc, List.append_assoc] at h
      -- One side ends here and the other goes on.
      exact absurd h (comma_ne_bracket _ _)
  | cons v items ih =>
    cases items' with
    | nil =>
      rw [compactItems, compactItems, List.append_assoc, List.append_assoc] at h
      exact absurd h.symm (comma_ne_bracket _ _)
    | cons w items' =>
      rw [compactItems, compactItems, List.append_assoc, List.append_assoc, List.append_assoc,
        List.append_assoc] at h
      obtain ⟨rfl, hmore⟩ := hitems v List.mem_cons_self (hitems' w List.mem_cons_self)
        (endsValue_compactItems items r) (endsValue_compactItems items' s)
          (List.append_cancel_left h)
      obtain ⟨rfl, hrest⟩ := ih (fun u hu ↦ hitems u (List.mem_cons_of_mem v hu))
        (fun u hu ↦ hitems' u (List.mem_cons_of_mem v hu)) hmore
      exact ⟨rfl, hrest⟩

theorem member_append_injective {k k' : Text} {v w : Json} {r s : Text} (hk : Text.Unsplit k)
    (hk' : Text.Unsplit k') (hv : v.Told) (hw : w.Unsplit) (hr : EndsValue r) (hs : EndsValue s)
    (h : quote k ++ ": " ++ compact v ++ r = quote k' ++ ": " ++ compact w ++ s) :
    (k, v) = (k', w) ∧ r = s := by
  rw [List.append_assoc, List.append_assoc, List.append_assoc, List.append_assoc] at h
  obtain ⟨htoken, -, hmore⟩ := (Token.isFront_quote hk).unique (Token.isFront_quote hk') h
  obtain ⟨rfl, hrest⟩ := hv hw hr hs (List.append_cancel_left hmore)
  exact ⟨by rw [Token.text.inj htoken], hrest⟩

/-- The members after the first one are told, and what follows the object is. -/
theorem compactMembers_append_injective {members members' : List (Text × Json)} {r s : Text}
    (hmembers : ∀ m ∈ members, Text.Unsplit m.1 ∧ m.2.Told)
    (hmembers' : ∀ m ∈ members', Text.Unsplit m.1 ∧ m.2.Unsplit)
    (h : compactMembers members ++ r = compactMembers members' ++ s) :
    members = members' ∧ r = s := by
  induction members generalizing members' with
  | nil =>
    cases members' with
    | nil => exact ⟨rfl, List.append_cancel_left h⟩
    | cons m' members' =>
      rw [compactMembers, compactMembers] at h
      simp only [List.append_assoc] at h
      exact absurd h (comma_ne_brace _ _)
  | cons m members ih =>
    cases members' with
    | nil =>
      rw [compactMembers, compactMembers] at h
      simp only [List.append_assoc] at h
      exact absurd h.symm (comma_ne_brace _ _)
    | cons m' members' =>
      have hm := hmembers m List.mem_cons_self
      have hm' := hmembers' m' List.mem_cons_self
      have hline : quote m.1 ++ ": " ++ compact m.2 ++ (compactMembers members ++ r) =
          quote m'.1 ++ ": " ++ compact m'.2 ++ (compactMembers members' ++ s) := by
        rw [compactMembers, compactMembers] at h
        simp only [List.append_assoc] at h ⊢
        exact List.append_cancel_left h
      obtain ⟨heq, hmore⟩ := member_append_injective hm.1 hm'.1 hm.2 hm'.2
        (endsValue_compactMembers members r) (endsValue_compactMembers members' s) hline
      obtain ⟨rfl, hrest⟩ := ih (fun u hu ↦ hmembers u (List.mem_cons_of_mem m hu))
        (fun u hu ↦ hmembers' u (List.mem_cons_of_mem m' hu)) hmore
      exact ⟨by rw [show m = m' from heq], hrest⟩

theorem told_arr {items : List Json} (hitems : ∀ v ∈ items, v.Unsplit ∧ v.Told) :
    (arr items).Told := by
  intro w r s hw hr hs h
  have hunsplit : (arr items).Unsplit := unsplit_arr.mpr fun v hv ↦ (hitems v hv).1
  -- The texts start with one bracket, so the other value is an array as well.
  obtain ⟨items', rfl⟩ := eq_arr_of_firstToken (firstToken_eq_of_compact hunsplit hw hr hs h).symm
  rw [unsplit_arr] at hw
  rw [compact_arr, compact_arr, List.append_assoc, List.append_assoc] at h
  have htail := List.append_cancel_left h
  cases items with
  | nil =>
    cases items' with
    | nil => exact ⟨rfl, List.append_cancel_left htail⟩
    | cons w items' =>
      rw [compactTail, compactTail, List.append_assoc] at htail
      exact absurd htail.symm (compact_ne_closing (hw w List.mem_cons_self)
        (endsValue_compactItems items' s) r)
  | cons v items =>
    have hv := hitems v List.mem_cons_self
    cases items' with
    | nil =>
      rw [compactTail, compactTail, List.append_assoc] at htail
      exact absurd htail (compact_ne_closing hv.1 (endsValue_compactItems items r) s)
    | cons w items' =>
      rw [compactTail, compactTail, List.append_assoc, List.append_assoc] at htail
      obtain ⟨rfl, hmore⟩ := hv.2 (hw w List.mem_cons_self) (endsValue_compactItems items r)
        (endsValue_compactItems items' s) htail
      obtain ⟨rfl, hrest⟩ := compactItems_append_injective
        (fun u hu ↦ (hitems u (List.mem_cons_of_mem v hu)).2)
        (fun u hu ↦ hw u (List.mem_cons_of_mem v hu)) hmore
      exact ⟨rfl, hrest⟩

private theorem brace_ne_quote (k s t : Text) : ("\x7d" : Text) ++ s ≠ quote k ++ t := by
  intro h
  cases h

theorem told_obj {members : List (Text × Json)}
    (hmembers : ∀ m ∈ members, Text.Unsplit m.1 ∧ m.2.Unsplit ∧ m.2.Told) :
    (obj members).Told := by
  intro w r s hw hr hs h
  have hunsplit : (obj members).Unsplit :=
    unsplit_obj.mpr fun m hm ↦ ⟨(hmembers m hm).1, (hmembers m hm).2.1⟩
  -- The texts start with one brace, so the other value is an object as well.
  obtain ⟨members', rfl⟩ :=
    eq_obj_of_firstToken (firstToken_eq_of_compact hunsplit hw hr hs h).symm
  rw [unsplit_obj] at hw
  rw [compact_obj, compact_obj, List.append_assoc, List.append_assoc] at h
  have htail := List.append_cancel_left h
  cases members with
  | nil =>
    cases members' with
    | nil => exact ⟨rfl, List.append_cancel_left htail⟩
    | cons m' members' =>
      rw [compactTail, compactTail] at htail
      simp only [List.append_assoc] at htail
      exact absurd htail (brace_ne_quote _ _ _)
  | cons m members =>
    have hm := hmembers m List.mem_cons_self
    cases members' with
    | nil =>
      rw [compactTail, compactTail] at htail
      simp only [List.append_assoc] at htail
      exact absurd htail.symm (brace_ne_quote _ _ _)
    | cons m' members' =>
      have hm' := hw m' List.mem_cons_self
      rw [compactTail, compactTail, List.append_assoc _ (compactMembers members),
        List.append_assoc _ (compactMembers members')] at htail
      obtain ⟨heq, hmore⟩ := member_append_injective hm.1 hm'.1 hm.2.2 hm'.2
        (endsValue_compactMembers members r) (endsValue_compactMembers members' s) htail
      obtain ⟨rfl, hrest⟩ := compactMembers_append_injective
        (fun u hu ↦ ⟨(hmembers u (List.mem_cons_of_mem m hu)).1,
          (hmembers u (List.mem_cons_of_mem m hu)).2.2⟩)
        (fun u hu ↦ hw u (List.mem_cons_of_mem m' hu)) hmore
      exact ⟨by rw [show m = m' from heq], hrest⟩

theorem told {v : Json} (hunsplit : v.Unsplit) : v.Told := by
  induction v using Json.induct with
  | scalar v hv => exact told_of_isScalar hv hunsplit
  | arr items ih =>
    rw [unsplit_arr] at hunsplit
    exact told_arr fun v hv ↦ ⟨hunsplit v hv, ih v hv (hunsplit v hv)⟩
  | obj members ih =>
    rw [unsplit_obj] at hunsplit
    exact told_obj fun m hm ↦
      ⟨(hunsplit m hm).1, (hunsplit m hm).2, ih m hm (hunsplit m hm).2⟩

/-- **The one-line text tells values apart.** -/
theorem compact_injective {v w : Json} (hv : v.Unsplit) (hw : w.Unsplit)
    (h : compact v = compact w) : v = w :=
  (told hv hw .nil .nil (by rw [h])).1

end RouteCatalog.Json
