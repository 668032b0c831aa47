import RouteCatalog.Proofs.Route.Registration
import RouteCatalog.Proofs.Route.Report

/-!
# Which registrations are reported

A search goes through registrations one after the other (`Search.take`). It opens at the first that
is called by its own name, takes the first verb from there on, and then the first address after the
verb. The three can come from different registrations: one without a supported verb, or with its
address first, lends its place or its verb to a later one. What the dialect reports is what this
search finds (`found_occurrencesFrom`).

A registration is whole when its verb is supported and comes before its address. The search finds
every whole registration and nothing else, unless one that is not whole is followed by what it lacks
(`reported_eq_own_iff`).
-/

namespace RouteCatalog

open Declaration Dialect

namespace Registration

variable {r next : Registration} {rs rest : List Registration} {offset start : Nat}
  {d : Declaration} {ending : Text}

/-- The call is to a function whose name is the whole word. -/
def IsNamed (r : Registration) : Prop := atBoundary r.gap.getLast? = true

instance (r : Registration) : Decidable r.IsNamed := inferInstanceAs (Decidable (_ = _))

/-- The verb is supported and comes before the address. -/
def IsWhole (r : Registration) : Prop := IsVerb r.verb ∧ r.methodFirst = true

instance (r : Registration) : Decidable r.IsWhole := inferInstanceAs (Decidable (_ ∧ _))

/-- The registration as a declaration. -/
def declaration (r : Registration) : Declaration := ⟨r.verb, r.url⟩

/-! ## The search -/

/-- How far a search has come. -/
inductive Search
  | idle
  | opened (start : Nat)
  | chosen (start : Nat) (verb : Text)

/-- A search that has not opened opens at a registration that is called by its own name. -/
def Search.enter (r : Registration) (start : Nat) : Search → Search
  | .idle => if r.IsNamed then .opened start else .idle
  | search => search

/-- What a search takes from a registration, and what it has found there. -/
def Search.take (r : Registration) : Search → Search × Option (Nat × Declaration)
  | .idle => (.idle, none)
  | .opened start =>
    if IsVerb r.verb then
      if r.methodFirst then (.idle, some (start, r.declaration)) else (.chosen start r.verb, none)
    else (.opened start, none)
  | .chosen start verb => (.idle, some (start, ⟨verb, r.url⟩))

/-- What a search finds in registrations, the first of which has its text at an offset. -/
def reported : Search → (offset : Nat) → List Registration → List (Nat × Declaration)
  | _, _, [] => []
  | search, offset, r :: rest =>
    let step := (search.enter r (offset + r.gap.length)).take r
    step.2.toList ++ reported step.1 (offset + r.text.length) rest

theorem reported_opened_cons (start offset : Nat) (r : Registration) (rest : List Registration) :
    reported (.opened start) offset (r :: rest) =
      ((Search.opened start).take r).2.toList ++
        reported ((Search.opened start).take r).1 (offset + r.text.length) rest := rfl

theorem reported_chosen_cons (start offset : Nat) (verb : Text) (r : Registration)
    (rest : List Registration) :
    reported (.chosen start verb) offset (r :: rest) =
      (start, ⟨verb, r.url⟩) :: reported .idle (offset + r.text.length) rest := rfl

theorem reported_idle_of_isNamed (h : r.IsNamed) (offset : Nat) (rest : List Registration) :
    reported .idle offset (r :: rest) =
      reported (.opened (offset + r.gap.length)) offset (r :: rest) := by
  rw [reported, Search.enter, if_pos h]
  rfl

theorem reported_idle_of_not_isNamed (h : ¬ r.IsNamed) (offset : Nat) (rest : List Registration) :
    reported .idle offset (r :: rest) = reported .idle (offset + r.text.length) rest := by
  rw [reported, Search.enter, if_neg h]
  rfl

/-! ## One declaration -/

/-- What is recognised from the opening of a registration on, and how many of the registrations
after it are used up. -/
def complete? : Registration → List Registration → Option (Declaration × Nat)
  | r, [] => if r.IsWhole then some (r.declaration, 0) else none
  | r, next :: rest =>
    if IsVerb r.verb then
      if r.methodFirst then some (r.declaration, 0) else some (⟨r.verb, next.url⟩, 1)
    else (complete? next rest).map fun (d, n) ↦ (d, n + 1)

theorem textOf_cons (r : Registration) (rs : List Registration) :
    textOf (r :: rs) = r.text ++ textOf rs := rfl

/-- An open search finds the declaration that is recognised there, and then goes on. -/
theorem reported_opened (r : Registration) (rest : List Registration) (start offset : Nat) :
    reported (.opened start) offset (r :: rest) =
      match complete? r rest with
      | none => []
      | some (d, n) =>
        (start, d) :: reported .idle (offset + (textOf (r :: rest.take n)).length)
          (rest.drop n) := by
  induction rest generalizing r offset with
  | nil =>
    rw [reported_opened_cons, complete?, Search.take]
    by_cases hverb : IsVerb r.verb <;> by_cases hfirst : r.methodFirst = true <;>
      simp [reported, IsWhole, hverb, hfirst]
  | cons next rest ih =>
    rw [reported_opened_cons, complete?, Search.take]
    by_cases hverb : IsVerb r.verb
    · rw [if_pos hverb, if_pos hverb]
      by_cases hfirst : r.methodFirst = true
      · rw [if_pos hfirst, if_pos hfirst]
        simp [textOf]
      · rw [if_neg hfirst, if_neg hfirst, reported_chosen_cons]
        simp [textOf, Nat.add_assoc]
    · rw [if_neg hverb, if_neg hverb, Option.toList_none, List.nil_append, ih]
      cases complete? next rest with
      | none => rfl
      | some found => simp [textOf_cons, Nat.add_assoc]

/-- Registrations in which nothing is completed are left without a find. -/
theorem reported_of_complete?_eq_none {rest : List Registration}
    (h : complete? r rest = none) (offset : Nat) : reported .idle offset rest = [] := by
  induction rest generalizing r offset with
  | nil => rfl
  | cons next rest ih =>
    have hnext : complete? next rest = none := by
      rw [complete?] at h
      split at h
      · split at h <;> cases h
      · exact Option.map_eq_none_iff.mp h
    by_cases hnamed : next.IsNamed
    · rw [reported_idle_of_isNamed hnamed, reported_opened, hnext]
    · rw [reported_idle_of_not_isNamed hnamed]
      exact ih hnext _

/-! ## The pattern -/

/-- What a registration pattern recognises after the opening. -/
def finish (t : Text) : Option (Declaration × Text) := do
  let (verb, t) ← methodField.first? none t
  let (path, t) ← urlField.first? none t
  let ((), rest) ← registrationClosing.first? none t
  return (⟨verb, path⟩, rest)

theorem registration_opening (before : Option CodePoint) (t : Text) :
    registration before ("route(\x7b" ++ t) = if atBoundary before then finish t else none := by
  have hopening : registrationOpening before ("route(\x7b" ++ t) =
      if atBoundary before then some ((), t) else none := by
    unfold registrationOpening
    cases atBoundary before <;> rfl
  rw [registration, hopening]
  split <;> rfl

theorem textOf_cons_append (r : Registration) (rest : List Registration) (ending : Text) :
    textOf (r :: rest) ++ ending =
      r.gap ++ "route(\x7b" ++ (r.fields ++ ("\x7d)" ++ (textOf rest ++ ending))) := by
  simp [textOf_cons, text]

section Finish

variable {α : Type} {p : Pattern α} {word : Text}

/-- A search for a field passes over the closing of a registration and what follows it, up to the
fields of the next. -/
theorem WellFormed.first?_between (hr : r.WellFormed) (hword : word ∈ fieldWords)
    (hne : word ≠ "route") (hled : ∀ before t, dropWord? word t = none → p before t = none)
    (before : Option CodePoint) (y : Text) :
    ∃ before', p.first? before ("\x7d)" ++ (r.gap ++ "route(\x7b" ++ y)) = p.first? before' y := by
  have hfixed : ∀ word ∈ fieldWords, word ≠ "route" →
      (∀ tail ∈ (Text.ofString "\x7d)").tails, tail = [] ∨ Clashes word tail) ∧
        ∀ tail ∈ (Text.ofString "route(\x7b").tails, tail = [] ∨ Clashes word tail := by decide
  obtain ⟨hclosing, hopening⟩ := hfixed word hword hne
  have hclear : Clear word ("\x7d)" ++ (r.gap ++ "route(\x7b")) y := by
    rw [clear_append, clear_append]
    exact ⟨clear_of_clashes hclosing _, hr.clear_gap hword _, clear_of_clashes hopening _⟩
  rw [← List.append_assoc]
  exact ⟨_, Pattern.first?_of_declines (hclear.declines hled) before⟩

theorem first?_ending (hending : Wordless ending) (hword : word ∈ fieldWords)
    (hled : ∀ before t, dropWord? word t = none → p before t = none) (before : Option CodePoint) :
    p.first? before ("\x7d)" ++ ending) = none := by
  have hfixed : ∀ word ∈ fieldWords,
      ∀ tail ∈ (Text.ofString "\x7d)").tails, tail = [] ∨ Clashes word tail := by decide
  have hclear : Clear word ("\x7d)" ++ ending) [] := by
    rw [clear_append]
    exact ⟨clear_of_clashes (hfixed word hword) _, hending word hword⟩
  rw [← List.append_nil (Text.ofString "\x7d)" ++ ending),
    Pattern.first?_of_declines (hclear.declines hled)]
  rfl

end Finish

theorem finish_of_isWhole (hr : r.WellFormed) (h : r.IsWhole) (y : Text) :
    finish (r.fields ++ ("\x7d)" ++ y)) = some (r.declaration, y) := by
  simp only [finish, hr.first?_method h.1, hr.first?_address_afterMethod h.2, hr.first?_closing,
    Option.bind_eq_bind, Option.bind_some]
  rfl

/-- Without a method of its own, a registration leaves the search to the next. -/
theorem finish_of_not_isVerb (hr : r.WellFormed) (h : ¬ IsVerb r.verb) (hnext : next.WellFormed)
    (rest : List Registration) (ending : Text) :
    finish (r.fields ++ ("\x7d)" ++ (textOf (next :: rest) ++ ending))) =
      finish (next.fields ++ ("\x7d)" ++ (textOf rest ++ ending))) := by
  have hmethod : methodField.first? none
      (r.fields ++ ("\x7d)" ++ (textOf (next :: rest) ++ ending))) =
        methodField.first? none (next.fields ++ ("\x7d)" ++ (textOf rest ++ ending))) := by
    rw [Pattern.first?_of_declines (hr.declines_method h _), textOf_cons_append]
    obtain ⟨before, hbetween⟩ := hnext.first?_between (p := methodField) (by decide) (by decide)
      (fun _ _ ↦ methodField_of_none) _ _
    exact hbetween.trans (Pattern.first?_congr (fun _ _ _ ↦ rfl) _ _ _)
  rw [finish, hmethod, finish]

/-- With its address before its method, a registration takes the address of the next. -/
theorem finish_of_addressFirst (hr : r.WellFormed) (h : IsVerb r.verb)
    (hlast : r.methodFirst = false) (hnext : next.WellFormed) (rest : List Registration)
    (ending : Text) :
    finish (r.fields ++ ("\x7d)" ++ (textOf (next :: rest) ++ ending))) =
      some (⟨r.verb, next.url⟩, textOf rest ++ ending) := by
  have haddress (before : Option CodePoint) : urlField.first? before
      (r.afterMethod ++ ("\x7d)" ++ (textOf (next :: rest) ++ ending))) =
        some (next.url, next.afterAddress ++ ("\x7d)" ++ (textOf rest ++ ending))) := by
    rw [Pattern.first?_of_declines (hr.declines_address_afterMethod hlast _), textOf_cons_append]
    obtain ⟨before, hbetween⟩ := hnext.first?_between (p := urlField) (by decide) (by decide)
      (fun _ _ ↦ urlField_of_none) _ _
    exact hbetween.trans (hnext.first?_address before _)
  simp only [finish, hr.first?_method h, haddress, hnext.first?_closing, Option.bind_eq_bind,
    Option.bind_some]
  rfl

/-- The last registration completes nothing unless it is whole. -/
theorem finish_of_last (hr : r.WellFormed) (h : ¬ r.IsWhole) (hending : Wordless ending) :
    finish (r.fields ++ ("\x7d)" ++ ending)) = none := by
  by_cases hverb : IsVerb r.verb
  · have hlast : r.methodFirst = false := Bool.eq_false_iff.mpr fun hfirst ↦ h ⟨hverb, hfirst⟩
    have haddress (before : Option CodePoint) :
        urlField.first? before (r.afterMethod ++ ("\x7d)" ++ ending)) = none := by
      rw [Pattern.first?_of_declines (hr.declines_address_afterMethod hlast _)]
      exact first?_ending hending (by decide) (fun _ _ ↦ urlField_of_none) _
    simp only [finish, hr.first?_method hverb, haddress, Option.bind_eq_bind, Option.bind_some,
      Option.bind_none]
  · have hmethod (before : Option CodePoint) :
        methodField.first? before (r.fields ++ ("\x7d)" ++ ending)) = none := by
      rw [Pattern.first?_of_declines (hr.declines_method hverb _)]
      exact first?_ending hending (by decide) (fun _ _ ↦ methodField_of_none) _
    simp only [finish, hmethod, Option.bind_eq_bind, Option.bind_none]

/-- **What is recognised after an opening is what is completed there**, by induction on the
registrations that follow. -/
theorem finish_fields (hrs : ∀ q ∈ r :: rest, q.WellFormed) (hending : Wordless ending) :
    finish (r.fields ++ ("\x7d)" ++ (textOf rest ++ ending))) =
      (complete? r rest).map fun (d, n) ↦ (d, textOf (rest.drop n) ++ ending) := by
  induction rest generalizing r with
  | nil =>
    have hr := hrs r List.mem_cons_self
    rw [complete?]
    split
    · next hwhole => exact finish_of_isWhole hr hwhole _
    · next hnot => exact finish_of_last hr hnot hending
  | cons next rest ih =>
    obtain ⟨hr, hrest⟩ := List.forall_mem_cons.mp hrs
    have hnext := hrest next List.mem_cons_self
    rw [complete?]
    split
    · next hverb =>
      split
      · next hfirst => exact finish_of_isWhole hr ⟨hverb, hfirst⟩ _
      · next hlast =>
        exact finish_of_addressFirst hr hverb (Bool.eq_false_iff.mpr hlast) hnext rest ending
    · next hverb =>
      rw [finish_of_not_isVerb hr hverb hnext, ih hrest, Option.map_map]
      rfl

/-! ## All declarations -/

/-- The call of a registration. -/
def call (r : Registration) : Text := "route(\x7b" ++ r.fields ++ "\x7d)"

theorem text_eq (r : Registration) : r.text = r.gap ++ r.call := by
  simp [text, call]

/-- The end of a call is no word character, and neither is that of registrations after it. -/
theorem atBoundary_call (r : Registration) (rs : List Registration) (before : Option CodePoint) :
    atBoundary ((r.call ++ textOf rs).getLast?.or before) = true := by
  have hcall (r : Registration) : r.call.getLast? = some (CodePoint.ofChar ')') := by
    rw [call, List.getLast?_append]
    rfl
  rcases List.eq_nil_or_concat rs with rfl | ⟨rs, last, rfl⟩
  · rw [textOf, List.flatMap_nil, List.append_nil, hcall]
    rfl
  · rw [List.concat_eq_append, textOf, List.flatMap_append, List.flatMap_singleton, text_eq,
      List.getLast?_append, List.getLast?_append, List.getLast?_append, hcall]
    rfl

theorem atBoundary_gap (r : Registration) {before : Option CodePoint}
    (h : atBoundary before = true) : atBoundary (r.gap.getLast?.or before) = true ↔ r.IsNamed := by
  rw [IsNamed]
  cases r.gap.getLast? with
  | none => exact ⟨fun _ ↦ rfl, fun _ ↦ h⟩
  | some c => rfl

/-- The offsets and values of the declarations that are recognised. -/
def found (os : List (Occurrence Declaration)) : List (Nat × Declaration) :=
  os.map fun o ↦ (o.start, o.value)

section Step

variable (hrs : ∀ q ∈ r :: rest, q.WellFormed) (hending : Wordless ending)
include hrs

theorem found_gap (before : Option CodePoint) (offset : Nat) :
    found (registration.occurrencesFrom 0 offset before (textOf (r :: rest) ++ ending)) =
      found (registration.occurrencesFrom 0 (offset + r.gap.length) (r.gap.getLast?.or before)
        (r.call ++ (textOf rest ++ ending))) := by
  have hroute : Text.ofString "route" ∈ fieldWords := by decide
  have hclear := (hrs r List.mem_cons_self).clear_gap hroute
    (r.fields ++ ("\x7d)" ++ (textOf rest ++ ending)))
  have hgap : registration.Declines r.gap (r.call ++ (textOf rest ++ ending)) := by
    rw [call, List.append_assoc, List.append_assoc]
    exact hclear.declines fun _ _ ↦ registration_of_none
  rw [textOf_cons, text_eq, List.append_assoc, List.append_assoc,
    Pattern.occurrencesFrom_of_declines hgap]

theorem found_call_of_none {before : Option CodePoint}
    (h : registration before (r.call ++ (textOf rest ++ ending)) = none) (start : Nat) :
    found (registration.occurrencesFrom 0 start before (r.call ++ (textOf rest ++ ending))) =
      found (registration.occurrencesFrom 0 (start + r.call.length) (r.call.getLast?.or before)
        (textOf rest ++ ending)) := by
  have hcall : r.call = CodePoint.ofChar 'r' :: ("oute(\x7b" ++ r.fields ++ "\x7d)") := rfl
  rw [hcall, List.cons_append] at h
  rw [hcall, List.cons_append, Pattern.occurrencesFrom, h]
  dsimp only
  rw [Pattern.occurrencesFrom_of_declines ((hrs r List.mem_cons_self).declines_inside _),
    Pattern.getLast?_cons_or, List.length_cons, Nat.add_assoc, Nat.add_comm 1]

include hending

theorem registration_call (before : Option CodePoint) :
    registration before (r.call ++ (textOf rest ++ ending)) = if atBoundary before then
      (complete? r rest).map fun (d, n) ↦ (d, textOf (rest.drop n) ++ ending) else none := by
  rw [call, List.append_assoc, List.append_assoc, registration_opening, finish_fields hrs hending]

/-- After a call that is recognised the search goes on with what it has not used up. -/
theorem found_call_of_some {before : Option CodePoint} (hbefore : atBoundary before = true)
    {n : Nat} (h : complete? r rest = some (d, n)) (start : Nat) :
    found (registration.occurrencesFrom 0 start before (r.call ++ (textOf rest ++ ending))) =
      (start, d) :: found (registration.occurrencesFrom 0
        (start + (r.call ++ textOf (rest.take n)).length)
        ((r.call ++ textOf (rest.take n)).getLast?.or before)
        (textOf (rest.drop n) ++ ending)) := by
  have hne : r.call ++ textOf (rest.take n) ≠ [] := by simp [call, Text.ofString]
  have hsplit : r.call ++ (textOf rest ++ ending) =
      r.call ++ textOf (rest.take n) ++ (textOf (rest.drop n) ++ ending) := by
    rw [List.append_assoc, ← List.append_assoc (textOf (rest.take n)), textOf, textOf, textOf,
      ← List.flatMap_append, List.take_append_drop]
  have hrecognised := registration_call hrs hending before
  rw [if_pos hbefore, h, hsplit] at hrecognised
  rw [hsplit, Pattern.occurrencesFrom_of_found hne hrecognised]
  rfl

end Step

/-- **The search finds what the pattern recognises**, by induction on the number of registrations,
since one declaration may use up several. -/
theorem found_occurrencesFrom (hrs : ∀ r ∈ rs, r.WellFormed) (hending : Wordless ending)
    {before : Option CodePoint} (hbefore : atBoundary before = true) (offset : Nat) :
    found (registration.occurrencesFrom 0 offset before (textOf rs ++ ending)) =
      reported .idle offset rs := by
  induction hn : rs.length using Nat.strong_induction_on generalizing rs before offset with
  | _ n ih =>
    cases rs with
    | nil =>
      have hclear : registration.Declines ending [] :=
        (hending "route" (by decide)).declines fun _ _ ↦ registration_of_none
      rw [← List.append_nil (textOf [] ++ ending)]
      exact congrArg found (Pattern.occurrencesFrom_of_declines hclear offset before)
    | cons r rest =>
      have hrest := (List.forall_mem_cons.mp hrs).2
      have hlength : rest.length < n := hn ▸ Nat.lt_succ_self _
      have hrecognised := registration_call hrs hending (r.gap.getLast?.or before)
      -- A call that is not recognised leaves the search to the registrations after it.
      have hpassed (hnone : registration (r.gap.getLast?.or before)
          (r.call ++ (textOf rest ++ ending)) = none) :
          found (registration.occurrencesFrom 0 offset before (textOf (r :: rest) ++ ending)) =
            reported .idle (offset + r.text.length) rest := by
        have hafter := atBoundary_call r [] (r.gap.getLast?.or before)
        rw [textOf, List.flatMap_nil, List.append_nil] at hafter
        rw [found_gap hrs, found_call_of_none hrs hnone,
          ih _ hlength hrest hafter _ rfl, text_eq, List.length_append, Nat.add_assoc]
      by_cases hnamed : r.IsNamed
      · rw [reported_idle_of_isNamed hnamed, reported_opened]
        cases hcomplete : complete? r rest with
        | none =>
          rw [hcomplete, Option.map_none, ite_self] at hrecognised
          rw [hpassed hrecognised]
          exact reported_of_complete?_eq_none hcomplete _
        | some completed =>
          obtain ⟨d, used⟩ := completed
          have hdropped : ∀ q ∈ rest.drop used, q.WellFormed := fun q hq ↦
            hrest q (List.mem_of_mem_drop hq)
          have hshort : (rest.drop used).length < n := by
            rw [List.length_drop]
            omega
          rw [found_gap hrs, found_call_of_some hrs hending ((atBoundary_gap r hbefore).mpr hnamed)
            hcomplete, ih _ hshort hdropped (atBoundary_call r _ _) _ rfl]
          simp [textOf_cons, text_eq, Nat.add_assoc]
      · rw [if_neg (mt (atBoundary_gap r hbefore).mp hnamed)] at hrecognised
        rw [reported_idle_of_not_isNamed hnamed]
        exact hpassed hrecognised

/-! ## Registrations that are mixed -/

/-- The whole registrations among those that are called by their own name, each with its own offset,
verb and path. -/
def own : (offset : Nat) → List Registration → List (Nat × Declaration)
  | _, [] => []
  | offset, r :: rest =>
    (if r.IsNamed ∧ r.IsWhole then [(offset + r.gap.length, r.declaration)] else []) ++
      own (offset + r.text.length) rest

/-- There is a supported verb with an address after it. -/
def Completes : List Registration → Prop
  | [] => False
  | r :: rest => IsVerb r.verb ∧ (r.methodFirst = true ∨ rest ≠ []) ∨ Completes rest

/-- The first of the registrations called by their own name that is not whole is completed, by what
follows it. -/
def Mixes : List Registration → Prop
  | [] => False
  | r :: rest => if r.IsNamed ∧ ¬ r.IsWhole then Completes (r :: rest) else Mixes rest

theorem isSome_complete?_iff (r : Registration) (rest : List Registration) :
    (complete? r rest).isSome = true ↔ Completes (r :: rest) := by
  induction rest generalizing r with
  | nil =>
    rw [complete?]
    split <;> simp_all [Completes, IsWhole]
  | cons next rest ih =>
    rw [complete?, Completes, ← ih]
    split
    · next hverb => split <;> simp [hverb]
    · next hverb => simp [hverb]

theorem le_of_mem_own {f : Nat × Declaration} (h : f ∈ own offset rs) : offset ≤ f.1 := by
  induction rs generalizing offset with
  | nil => cases h
  | cons r rest ih =>
    rw [own, List.mem_append] at h
    rcases h with h | h
    · split at h
      · rw [List.mem_singleton.mp h]
        exact Nat.le_add_right _ _
      · cases h
    · exact (Nat.le_add_right _ _).trans (ih h)

theorem own_of_not_completes (h : ¬ Completes rs) (offset : Nat) : own offset rs = [] := by
  induction rs generalizing offset with
  | nil => rfl
  | cons r rest ih =>
    obtain ⟨hr, hrest⟩ := not_or.mp h
    rw [own, ih hrest, if_neg fun hwhole ↦ hr ⟨hwhole.2.1, .inl hwhole.2.2⟩, List.append_nil]

/-- **The search finds every whole registration and nothing else, unless some are mixed.** -/
theorem reported_eq_own_iff (offset : Nat) (rs : List Registration) :
    reported .idle offset rs = own offset rs ↔ ¬ Mixes rs := by
  induction rs generalizing offset with
  | nil => exact ⟨fun _ ↦ id, fun _ ↦ rfl⟩
  | cons r rest ih =>
    rw [own, Mixes]
    by_cases hnamed : r.IsNamed
    · rw [reported_idle_of_isNamed hnamed]
      by_cases hwhole : r.IsWhole
      · rw [if_pos ⟨hnamed, hwhole⟩, if_neg fun h ↦ h.2 hwhole, reported_opened_cons, Search.take,
          if_pos hwhole.1, if_pos hwhole.2, ← ih (offset + r.text.length)]
        exact List.cons_inj_right _
      · rw [if_neg fun h ↦ hwhole h.2, if_pos ⟨hnamed, hwhole⟩, List.nil_append,
          ← isSome_complete?_iff, reported_opened]
        cases hcomplete : complete? r rest with
        | none =>
          have hnone : ¬ Completes rest := by
            have := mt (isSome_complete?_iff r rest).mpr (by rw [hcomplete]; decide)
            exact (not_or.mp this).2
          simp [own_of_not_completes hnone]
        | some completed =>
          -- What is found at this opening is no registration's own.
          simp only [Option.isSome_some, not_true, iff_false]
          intro heq
          have hle := le_of_mem_own (heq ▸ List.mem_cons_self)
          rw [text, List.length_append, List.length_append, List.length_append] at hle
          have hroute : 0 < (Text.ofString "route(\x7b").length := by decide
          omega
    · rw [reported_idle_of_not_isNamed hnamed, if_neg fun h ↦ hnamed h.1, if_neg fun h ↦ hnamed h.1,
        List.nil_append]
      exact ih _

/-! ## Endpoints -/

/-- An endpoint reports a declaration that was found at an offset. -/
structure Carries (file content : Text) (f : Nat × Declaration) (e : Endpoint) : Prop where
  verb : Verb.parse? f.2.verb = some e.verb
  path : e.path = f.2.path
  line : e.line = some (lineAt content f.1 : Nat)
  /-- It says what the comment before the offset says. -/
  documentation : (⟨e.description, e.parameters, e.requestBody, e.response⟩ : Documentation) =
    lenientAt content f.1
  framework : e.framework = fastify.name
  sourceFile : e.sourceFile = file

theorem carries_of_reports {file content : Text} {o : Occurrence Declaration} {e : Endpoint}
    (h : Reports fastify.name [] file content o e) : Carries file content (o.start, o.value) e where
  verb := h.verb
  path := by
    rw [h.path]
    split
    · next hempty => exact (List.isEmpty_iff.mp hempty).symm
    · rfl
  line := h.line
  documentation := h.documentation
  framework := h.framework
  sourceFile := h.sourceFile

/-- **What is reported for registrations in a row.** The endpoints are those that the search finds,
in order, unless the comment of one of them nests too deeply; then there are none. The search finds
the whole registrations, each with its own place, verb and path, if and only if the first that is
not whole is not completed by what follows. Where it is, two registrations are mixed. -/
theorem fastify_mixes_registrations (file : Text) (hrs : ∀ r ∈ rs, r.WellFormed)
    (hending : Wordless ending) :
    ((∀ f ∈ reported .idle 0 rs, ¬ TooDeepAt (textOf rs ++ ending) f.1) →
      ∃ endpoints, fastify.extract file (textOf rs ++ ending) = .ok endpoints ∧
        List.Forall₂ (Carries file (textOf rs ++ ending)) (reported .idle 0 rs) endpoints) ∧
    ((∃ f ∈ reported .idle 0 rs, TooDeepAt (textOf rs ++ ending) f.1) →
      ∃ failure, fastify.extract file (textOf rs ++ ending) = .error failure) ∧
    (reported .idle 0 rs = own 0 rs ↔ ¬ Mixes rs) := by
  have hfound : found (registration.occurrences (textOf rs ++ ending)) = reported .idle 0 rs :=
    found_occurrencesFrom hrs hending rfl 0
  refine ⟨fun hshallow ↦ ?_, ?_, reported_eq_own_iff 0 rs⟩
  · have hoccurrences : ∀ o ∈ registration.occurrences (textOf rs ++ ending),
        ¬ TooDeepAt (textOf rs ++ ending) o.start := by
      intro o ho
      have hmem : (o.start, o.value) ∈ found (registration.occurrences (textOf rs ++ ending)) :=
        List.mem_map_of_mem ho
      exact hshallow _ (hfound ▸ hmem)
    obtain ⟨endpoints, hextract, hall⟩ := Grammar.fastify.extract_of_shallow file hoccurrences
    refine ⟨endpoints, hextract, ?_⟩
    rw [← hfound, found, List.forall₂_map_left_iff]
    exact hall.imp fun _ _ ↦ carries_of_reports
  · rintro ⟨f, hf, hdeep⟩
    rw [← hfound] at hf
    obtain ⟨o, ho, rfl⟩ := List.mem_map.mp hf
    exact Grammar.fastify.extract_of_tooDeepAt file ho hdeep

private def lending : Registration :=
  ⟨"fastify.", false, " ", ", ", " ", "GET", "/a"⟩

private def borrowing : Registration :=
  ⟨"\nfastify.", true, " ", ", ", " ", "POST", "/b"⟩

private def lentText : Text :=
  "fastify.route(\x7b url: '/a', method: 'GET' \x7d)\n" ++
    "fastify.route(\x7b method: 'POST', url: '/b' \x7d)\n"

/-- A registration with its address first lends its place and its verb to the next, so the endpoint
of the next is not reported. -/
theorem fastify_mixes_registrations_pair :
    reported .idle 0 [lending, borrowing] ≠ own 0 [lending, borrowing] ∧
      ∃ e, fastify.extract "a.js" lentText = .ok [e] ∧
        e.verb = .get ∧ e.path = "/b" ∧ e.line = some 1 := by
  have hwellFormed : ∀ r ∈ [lending, borrowing], r.WellFormed := by decide
  have hending : Wordless "\n" := by decide
  have hreported : reported .idle 0 [lending, borrowing] = [(8, ⟨"GET", "/b"⟩)] := by decide
  have htext : textOf [lending, borrowing] ++ "\n" = lentText := by decide
  obtain ⟨hshallow, -, hmixes⟩ := fastify_mixes_registrations "a.js" hwellFormed hending
  rw [htext, hreported] at hshallow
  have hcomment : DocComment.lastBefore lentText 8 = none := by decide
  obtain ⟨endpoints, hextract, hall⟩ := hshallow fun f hf ↦ by
    rw [List.mem_singleton.mp hf]
    rintro ⟨block, hblock, -⟩
    cases hcomment.symm.trans hblock
  obtain ⟨e, rest, hcarries, hnil, rfl⟩ := List.forall₂_cons_left_iff.mp hall
  obtain rfl := List.forall₂_nil_left_iff.mp hnil
  have hverb : Verb.parse? "GET" = some .get := by decide
  have hline : lineAt lentText 8 = 1 := by decide
  refine ⟨fun heq ↦ ?_, e, hextract, ?_, hcarries.path, ?_⟩
  · exact hmixes.mp heq (by simp only [Mixes, Completes]; decide)
  · exact Option.some.inj (hcarries.verb.symm.trans hverb)
  · rw [hcarries.line, hline]
    rfl

end Registration

end RouteCatalog
