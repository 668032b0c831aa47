import RouteCatalog.Proofs.Route.Word

/-!
# Registrations as they are written

A registration has one method field and one address field, in either order, and other fields around
them; none of its other texts holds one of the words that patterns look for
(`Registration.WellFormed`). So the search for a method passes over the registration unless its verb
is supported, and the search for an address finds it, if it starts before it; the closing is that of
the registration, and no other registration starts inside it.
-/

namespace RouteCatalog

open Declaration

/-- A registration as it is written, with the text before it. -/
structure Registration where
  /-- The text before the registration, from the one before it or the start of the text. -/
  gap : Text
  /-- The method comes before the address. -/
  methodFirst : Bool
  /-- The text before the first of the two fields. -/
  front : Text
  /-- The text between the two fields. -/
  middle : Text
  /-- The text after the second field. -/
  back : Text
  verb : Text
  url : Text
  deriving DecidableEq

namespace Registration

/-- The method field. -/
def method (r : Registration) : Text := "method: '" ++ r.verb ++ "'"

/-- The address field. -/
def address (r : Registration) : Text := "url: '" ++ r.url ++ "'"

/-- What stands between the braces. -/
def fields (r : Registration) : Text :=
  if r.methodFirst then r.front ++ r.method ++ r.middle ++ r.address ++ r.back
  else r.front ++ r.address ++ r.middle ++ r.method ++ r.back

/-- The registration with the text before it. -/
def text (r : Registration) : Text := r.gap ++ "route(\x7b" ++ r.fields ++ "\x7d)"

/-- Registrations in a row. -/
def textOf (rs : List Registration) : Text := rs.flatMap text

/-- A registration with one method field and one address field. The words that tell them are nowhere
else, nor are braces or, in the two values, quotation marks. -/
structure WellFormed (r : Registration) : Prop where
  /-- The words occur nowhere else. -/
  wordless : ∀ t ∈ [r.gap, r.front, r.middle, r.back, r.verb, r.url], Wordless t
  /-- Between the braces there are no others. -/
  unbraced : ∀ t ∈ [r.front, r.middle, r.back, r.verb, r.url],
    CodePoint.ofChar '\x7b' ∉ t ∧ CodePoint.ofChar '\x7d' ∉ t
  /-- The values are there, and hold no quotation marks. -/
  valued : ∀ t ∈ [r.verb, r.url], t ≠ [] ∧ Unquoted t

instance (r : Registration) : Decidable r.WellFormed :=
  decidable_of_iff
    ((∀ t ∈ [r.gap, r.front, r.middle, r.back, r.verb, r.url], Wordless t) ∧
      (∀ t ∈ [r.front, r.middle, r.back, r.verb, r.url],
        CodePoint.ofChar '\x7b' ∉ t ∧ CodePoint.ofChar '\x7d' ∉ t) ∧
      ∀ t ∈ [r.verb, r.url], t ≠ [] ∧ Unquoted t)
    ⟨fun ⟨hwordless, hunbraced, hvalued⟩ ↦ ⟨hwordless, hunbraced, hvalued⟩,
      fun h ↦ ⟨h.wordless, h.unbraced, h.valued⟩⟩

/-! ## The parts of a registration -/

section Parts

variable {r : Registration} {word y : Text}

theorem stops_method (r : Registration) (y : Text) : Stops (r.method ++ y) := by
  rw [method, List.append_assoc, List.append_assoc]
  exact stops_of_clashes (by decide) _

theorem stops_address (r : Registration) (y : Text) : Stops (r.address ++ y) := by
  rw [address, List.append_assoc, List.append_assoc]
  exact stops_of_clashes (by decide) _

theorem stops_opening (y : Text) : Stops ("route(\x7b" ++ y) := stops_of_clashes (by decide) y

theorem stops_closing (y : Text) : Stops ("\x7d)" ++ y) := stops_of_clashes (by decide) y

variable (hr : r.WellFormed) (hword : word ∈ fieldWords)
include hr hword

theorem WellFormed.clear_gap (y : Text) : Clear word r.gap ("route(\x7b" ++ y) :=
  (hr.wordless _ (by simp)).clear hword (stops_opening y)

theorem WellFormed.clear_front (hy : Stops y) : Clear word r.front y :=
  (hr.wordless _ (by simp)).clear hword hy

theorem WellFormed.clear_middle (hy : Stops y) : Clear word r.middle y :=
  (hr.wordless _ (by simp)).clear hword hy

theorem WellFormed.clear_back (y : Text) : Clear word r.back ("\x7d)" ++ y) :=
  (hr.wordless _ (by simp)).clear hword (stops_closing y)

theorem WellFormed.clear_method (hne : word ≠ "method") (y : Text) : Clear word r.method y := by
  have hstart : ∀ word ∈ fieldWords, word ≠ "method" →
      ∀ tail ∈ (Text.ofString "method: '").tails, tail = [] ∨ Clashes word tail := by decide
  exact clear_quoted (hstart word hword hne) (hr.wordless _ (by simp)) hword y

theorem WellFormed.clear_address (hne : word ≠ "url") (y : Text) : Clear word r.address y := by
  have hstart : ∀ word ∈ fieldWords, word ≠ "url" →
      ∀ tail ∈ (Text.ofString "url: '").tails, tail = [] ∨ Clashes word tail := by decide
  exact clear_quoted (hstart word hword hne) (hr.wordless _ (by simp)) hword y

end Parts

/-! ## Searching a registration -/

theorem methodField_of_none {before : Option CodePoint} {t : Text}
    (h : dropWord? "method" t = none) : methodField before t = none := by
  simp [methodField, dropFieldName?, h]

theorem urlField_of_none {before : Option CodePoint} {t : Text} (h : dropWord? "url" t = none) :
    urlField before t = none := by
  simp [urlField, dropFieldName?, h]

theorem registration_of_none {before : Option CodePoint} {t : Text}
    (h : dropWord? "route" t = none) : registration before t = none := by
  have hopening : registrationOpening before t = none := by
    unfold registrationOpening
    split
    · rfl
    · simp [h]
  simp [registration, hopening]

theorem declines_closing {t : Text} (h : CodePoint.ofChar '\x7d' ∉ t) (y : Text) :
    registrationClosing.Declines t y := by
  induction t with
  | nil => trivial
  | cons c t ih =>
    obtain ⟨hc, ht⟩ := List.forall_mem_cons.mp (List.forall_mem_ne'.mpr h)
    refine ⟨fun before ↦ ?_, ih (List.forall_mem_ne'.mp ht)⟩
    have hliteral : Text.dropLiteral? "\x7d" (c :: t ++ y) = none := if_neg (Ne.symm hc)
    rw [registrationClosing, hliteral]
    rfl

variable {r : Registration}

/-- What is left of a registration after its method. -/
def afterMethod (r : Registration) : Text :=
  if r.methodFirst then r.middle ++ r.address ++ r.back else r.back

/-- What is left of a registration after its address. -/
def afterAddress (r : Registration) : Text :=
  if r.methodFirst then r.back else r.middle ++ r.method ++ r.back

theorem method_append_ne_nil (r : Registration) (y : Text) : r.method ++ y ≠ [] := by
  simp [method, Text.ofString]

theorem address_append_ne_nil (r : Registration) (y : Text) : r.address ++ y ≠ [] := by
  simp [address, Text.ofString]

section Fields

variable (hr : r.WellFormed)
include hr

theorem WellFormed.first?_method (hverb : IsVerb r.verb) (before : Option CodePoint) (y : Text) :
    methodField.first? before (r.fields ++ y) = some (r.verb, r.afterMethod ++ y) := by
  have hword : Text.ofString "method" ∈ fieldWords := by decide
  have hfound (z : Text) (before : Option CodePoint) :
      methodField before (r.method ++ z) = some (r.verb, z) := methodField_of_isVerb hverb before z
  rw [fields, afterMethod]
  split
  · simp only [List.append_assoc]
    have hfront (z : Text) := hr.clear_front hword (stops_method r z)
    exact Pattern.first?_of_found ((hfront _).declines fun _ _ ↦ methodField_of_none)
      (method_append_ne_nil r _) (hfound _) before
  · have hclear :
        Clear "method" (r.front ++ r.address ++ r.middle) (r.method ++ (r.back ++ y)) := by
      rw [clear_append, clear_append]
      exact ⟨⟨hr.clear_front hword (stops_address r _), hr.clear_address hword (by decide) _⟩,
        hr.clear_middle hword (stops_method r _)⟩
    rw [List.append_assoc, List.append_assoc]
    exact Pattern.first?_of_found (hclear.declines fun _ _ ↦ methodField_of_none)
      (method_append_ne_nil r _) (hfound _) before

theorem WellFormed.declines_method (hverb : ¬ IsVerb r.verb) (y : Text) :
    methodField.Declines r.fields ("\x7d)" ++ y) := by
  have hword : Text.ofString "method" ∈ fieldWords := by decide
  have hled {t : Text} (before : Option CodePoint) :
      dropWord? "method" t = none → methodField before t = none := methodField_of_none
  -- At the field itself the verb is at fault, and the word does not start again inside it.
  have hmethod (z : Text) : methodField.Declines r.method z := by
    have hunquoted : Unquoted r.verb := (hr.valued _ (by simp)).2
    have hinside : Clear "method" ("ethod: '" ++ r.verb ++ "'") z :=
      clear_quoted (by decide) (hr.wordless _ (by simp)) hword z
    exact ⟨fun before ↦ methodField_of_not_isVerb hunquoted hverb before z,
      hinside.declines fun before _ ↦ hled before⟩
  have haddress (z : Text) := (hr.clear_address hword (by decide) z).declines fun b _ ↦ hled b
  have hfront {z : Text} (hz : Stops z) := (hr.clear_front hword hz).declines fun b _ ↦ hled b
  have hmiddle {z : Text} (hz : Stops z) := (hr.clear_middle hword hz).declines fun b _ ↦ hled b
  have hback := (hr.clear_back hword y).declines fun b _ ↦ hled b
  rw [fields]
  split
  · simp only [Pattern.declines_append, List.append_assoc]
    exact ⟨hfront (stops_method r _), hmethod _, hmiddle (stops_address r _), haddress _, hback⟩
  · simp only [Pattern.declines_append, List.append_assoc]
    exact ⟨hfront (stops_address r _), haddress _, hmiddle (stops_method r _), hmethod _, hback⟩

theorem WellFormed.urlField_address (y : Text) (before : Option CodePoint) :
    urlField before (r.address ++ y) = some (r.url, y) := by
  obtain ⟨hne, hunquoted⟩ := hr.valued r.url (by simp)
  exact urlField_quoted hne hunquoted before y

/-- The address is found, wherever it is. -/
theorem WellFormed.first?_address (before : Option CodePoint) (y : Text) :
    urlField.first? before (r.fields ++ y) = some (r.url, r.afterAddress ++ y) := by
  have hword : Text.ofString "url" ∈ fieldWords := by decide
  have hclear (x z : Text) (h : Clear "url" x (r.address ++ z)) :
      urlField.first? before (x ++ (r.address ++ z)) = some (r.url, z) :=
    Pattern.first?_of_found (h.declines fun _ _ ↦ urlField_of_none) (address_append_ne_nil r z)
      (hr.urlField_address z) before
  rw [fields, afterAddress]
  split
  · rw [List.append_assoc, List.append_assoc]
    refine hclear _ _ ?_
    rw [clear_append, clear_append]
    exact ⟨⟨hr.clear_front hword (stops_method r _), hr.clear_method hword (by decide) _⟩,
      hr.clear_middle hword (stops_address r _)⟩
  · simp only [List.append_assoc]
    exact hclear _ _ (hr.clear_front hword (stops_address r _))

theorem WellFormed.first?_address_afterMethod (hfirst : r.methodFirst = true)
    (before : Option CodePoint) (y : Text) :
    urlField.first? before (r.afterMethod ++ y) = some (r.url, r.afterAddress ++ y) := by
  have hword : Text.ofString "url" ∈ fieldWords := by decide
  have hmiddle (z : Text) := hr.clear_middle hword (stops_address r z)
  rw [afterMethod, if_pos hfirst, afterAddress, if_pos hfirst]
  simp only [List.append_assoc]
  exact Pattern.first?_of_found ((hmiddle _).declines fun _ _ ↦ urlField_of_none)
    (address_append_ne_nil r _) (hr.urlField_address _) before

theorem WellFormed.declines_address_afterMethod (hlast : r.methodFirst = false) (y : Text) :
    urlField.Declines r.afterMethod ("\x7d)" ++ y) := by
  have hback : Clear "url" r.back ("\x7d)" ++ y) := hr.clear_back (by decide) y
  rw [afterMethod, if_neg (by rw [hlast]; decide)]
  exact hback.declines fun _ _ ↦ urlField_of_none

theorem WellFormed.first?_closing (before : Option CodePoint) (y : Text) :
    registrationClosing.first? before (r.afterAddress ++ ("\x7d)" ++ y)) = some ((), y) := by
  have hbrace (t : Text) (ht : t ∈ [r.front, r.middle, r.back, r.verb, r.url]) (z : Text) :
      registrationClosing.Declines t z := declines_closing (hr.unbraced t ht).2 z
  have hmethod (z : Text) : registrationClosing.Declines r.method z := by
    rw [method, Pattern.declines_append, Pattern.declines_append]
    exact ⟨⟨declines_closing (by decide) _, hbrace _ (by simp) _⟩, declines_closing (by decide) _⟩
  refine Pattern.first?_of_found ?_ (by simp [Text.ofString]) (fun _ ↦ rfl) before
  rw [afterAddress]
  split
  · exact hbrace _ (by simp) _
  · rw [Pattern.declines_append, Pattern.declines_append]
    exact ⟨⟨hbrace _ (by simp) _, hmethod _⟩, hbrace _ (by simp) _⟩

theorem WellFormed.declines_inside (y : Text) :
    registration.Declines ("oute(\x7b" ++ r.fields ++ "\x7d)") y := by
  have hword : Text.ofString "route" ∈ fieldWords := by decide
  have hclear : Clear "route" r.fields ("\x7d)" ++ y) := by
    have hmethod (z : Text) := hr.clear_method hword (by decide) z
    have haddress (z : Text) := hr.clear_address hword (by decide) z
    rw [fields]
    split
    · simp only [clear_append]
      exact ⟨⟨⟨⟨hr.clear_front hword (stops_method r _), hmethod _⟩,
        hr.clear_middle hword (stops_address r _)⟩, haddress _⟩, hr.clear_back hword y⟩
    · simp only [clear_append]
      exact ⟨⟨⟨⟨hr.clear_front hword (stops_address r _), haddress _⟩,
        hr.clear_middle hword (stops_method r _)⟩, hmethod _⟩, hr.clear_back hword y⟩
  refine Clear.declines (fun _ _ ↦ registration_of_none) ?_
  rw [clear_append, clear_append]
  exact ⟨⟨clear_of_clashes (by decide) _, hclear⟩, clear_of_clashes (by decide) _⟩

end Fields

end Registration

end RouteCatalog
