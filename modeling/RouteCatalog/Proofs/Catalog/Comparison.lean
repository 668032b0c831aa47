import RouteCatalog.Proofs.Catalog.Reconcile

/-!
# What the comparison form forgets

Endpoints are compared by a text that leaves out their line and the order of members at every level.
It leaves out nothing else (`comparisonForm_forgets_line`): the fields are told apart, numbers of
different kinds are different, and a member that is named like the line but stands inside a payload
is compared like any other. The last follows from what values that differ in the order of members
have in common: at every place inside them there are such values, or none in either
(`Json.Reordered.at?`).
-/

namespace RouteCatalog

namespace Json

/-- A step from a value to one inside it. -/
inductive Inward
  /-- To the member of an object with a key. -/
  | member (key : Text)
  /-- To the item of an array at an index. -/
  | item (index : Nat)

/-- The value at a place, which is given by the steps that lead to it. -/
def at? : (place : List Inward) → Json → Option Json
  | [], v => some v
  | .member key :: rest, .obj members => (member? key members).bind (at? rest)
  | .item index :: rest, .arr items => items[index]?.bind (at? rest)
  | _ :: _, _ => none

/-- Values that are alike or missing on both sides lead on to such values. -/
private theorem rel_bind {a b : Option Json} {f : Json → Option Json}
    (h : Option.Rel Reordered a b)
    (hf : ∀ v w, b = some w → Reordered v w → Option.Rel Reordered (f v) (f w)) :
    Option.Rel Reordered (a.bind f) (b.bind f) := by
  cases h with
  | none => exact .none
  | some hvalue => exact hf _ _ rfl hvalue

private theorem rel_getElem? {items items' : List Json} (h : List.Forall₂ Reordered items items')
    (index : Nat) : Option.Rel Reordered items[index]? items'[index]? := by
  rcases Nat.lt_or_ge index items.length with hlt | hge
  · have hlt' : index < items'.length := h.length_eq ▸ hlt
    rw [List.getElem?_eq_getElem hlt, List.getElem?_eq_getElem hlt']
    exact .some (h.get hlt hlt')
  · rw [List.getElem?_eq_none hge, List.getElem?_eq_none (h.length_eq ▸ hge)]
    exact .none

/-- Values that differ in the order of members do so at every place. -/
theorem Reordered.at? {v w : Json} (h : Reordered v w) (hw : w.Distinct) (place : List Inward) :
    Option.Rel Reordered (Json.at? place v) (Json.at? place w) := by
  induction place generalizing v w with
  | nil => exact .some h
  | cons step rest ih =>
    cases h with
    | scalar =>
      cases Json.at? (step :: rest) v with
      | none => exact .none
      | some value => exact .some (.refl value)
    | @arr items items' hitems =>
      cases step with
      | member key => exact .none
      | item index =>
        exact rel_bind (rel_getElem? hitems index) fun _ _ hfound hvalue ↦
          ih hvalue (distinct_arr.mp hw _ (List.mem_of_getElem? hfound))
    | @obj members middle members' hkeys hvalues hperm =>
      cases step with
      | item index => exact .none
      | member key =>
        obtain ⟨hnodup, hdistinct⟩ := distinct_obj.mp hw
        have hmember := Reordered.member? (.obj hkeys hvalues hperm) hnodup key
        exact rel_bind hmember fun _ _ hfound hvalue ↦
          ih hvalue (hdistinct _ (mem_of_member? hfound))

end Json

namespace Reconcile

variable {e e' : Endpoint}

theorem Comparable.distinct_payloads (h : Comparable e.toJson) :
    e.requestBody.Distinct ∧ ∀ r, e.response = some r → r.body.Distinct := by
  have hmembers := (Json.distinct_obj.mp h.2.1).2
  have hbody : (("requestBodySchema" : Text), e.requestBody) ∈ e.members :=
    List.mem_append_left _ (by simp [Endpoint.membersWithoutLine])
  have hresponse : (("response" : Text), Endpoint.responseJson e.response) ∈ e.members :=
    List.mem_append_left _ (by simp [Endpoint.membersWithoutLine])
  refine ⟨hmembers _ hbody, fun r hr ↦ ?_⟩
  have hdistinct := hmembers _ hresponse
  rw [hr] at hdistinct
  exact (Json.distinct_obj.mp hdistinct).2 ("example", r.body) (by simp)

/-- The payloads of endpoints that agree but for the line are alike at every place. -/
theorem rel_at?_of_sameButLine (h : e.SameButLine e') (he' : Comparable e'.toJson)
    (place : List Json.Inward) :
    Option.Rel Json.Reordered (Json.at? place e.requestBody) (Json.at? place e'.requestBody) ∧
      ∀ r r', e.response = some r → e'.response = some r' →
        Option.Rel Json.Reordered (Json.at? place r.body) (Json.at? place r'.body) := by
  obtain ⟨hbody, hresponse⟩ := he'.distinct_payloads
  refine ⟨h.requestBody.at? hbody place, fun r r' hr hr' ↦ ?_⟩
  have hsame := h.response
  rw [hr, hr'] at hsame
  cases hsame with
  | some hbody => exact hbody.at? (hresponse _ hr') place

/-- **The comparison form forgets the line and the order of members, and nothing else.** Values that
can be written on a line have a form. Two endpoints have one form exactly when they agree in every
field but the line, their payloads up to the order of members; and an earlier entry has the form of
an endpoint exactly when it is, without its line and up to the order of members, the persisted shape
of the endpoint without its line. What stands inside a payload counts at every place, also a member
that is named like the line: where it is missing in one of two endpoints with one form, it is
missing in the other. -/
theorem comparisonForm_forgets_line :
    (∀ members : List (Text × Json), Comparable (.obj members) →
      ∃ form, comparisonForm members = .ok form) ∧
    (∀ e e' : Endpoint, Comparable e.toJson → Comparable e'.toJson →
      (comparisonForm e.members = comparisonForm e'.members ↔ e.SameButLine e')) ∧
    (∀ (e : Endpoint) (members : List (Text × Json)), Comparable e.toJson →
      Comparable (.obj members) → (comparisonForm e.members = comparisonForm members ↔
        Json.Reordered (.obj (withoutLine members)) (.obj e.membersWithoutLine))) ∧
    ∀ e e' : Endpoint, Comparable e.toJson → Comparable e'.toJson →
      comparisonForm e.members = comparisonForm e'.members → ∀ place : List Json.Inward,
        Option.Rel Json.Reordered (Json.at? place e.requestBody)
            (Json.at? place e'.requestBody) ∧
          ∀ r r', e.response = some r → e'.response = some r' →
            Option.Rel Json.Reordered (Json.at? place r.body) (Json.at? place r'.body) := by
  refine ⟨fun members h ↦ ⟨_, h.comparisonForm⟩, fun e e' he he' ↦ sameButLine_iff he he',
    fun e members he hmembers ↦ ?_, fun e e' he he' hform place ↦ ?_⟩
  · rw [← Endpoint.withoutLine_members, ← comparisonForm_eq_iff hmembers he, eq_comm]
  · exact rel_at?_of_sameButLine ((sameButLine_iff he he').mp hform) he' place

private def placed (line : Int) (body : Json) : Endpoint where
  verb := .post
  path := "/a"
  framework := "express"
  sourceFile := "a.js"
  requestBody := body
  line := some line

/-- An endpoint that moved and whose payload was put in another order has the form that it had, and
so has an entry with its members in another order. With a truth value for a number, or without a
nested line, the form is another. -/
theorem comparisonForm_forgets_line_placed :
    comparisonForm (placed 1 (.obj [("a", .int 1), ("b", .null)])).members =
        comparisonForm (placed 7 (.obj [("b", .null), ("a", .int 1)])).members ∧
      comparisonForm (placed 1 .null).members =
        comparisonForm ((placed 7 .null).members.reverse) ∧
      comparisonForm (placed 1 (.int 1)).members ≠ comparisonForm (placed 1 (.bool true)).members ∧
      comparisonForm (placed 1 (.arr [.obj [("line", .int 1)]])).members ≠
        comparisonForm (placed 1 (.arr [.obj []])).members := by
  obtain ⟨-, hendpoints, hentry, hnested⟩ := comparisonForm_forgets_line
  refine ⟨(hendpoints _ _ (by decide) (by decide)).mpr ?_,
    (hentry _ _ (by decide) (by decide)).mpr ?_, fun hform ↦ ?_, fun hform ↦ ?_⟩
  · refine ⟨rfl, rfl, rfl, rfl, rfl, rfl, ?_, .none⟩
    exact .obj rfl (.cons (.refl _) (.cons (.refl _) .nil)) (List.Perm.swap _ _ _)
  · have hline : withoutLine (placed 7 .null).members.reverse =
        (placed 1 .null).membersWithoutLine.reverse := rfl
    rw [hline]
    exact .obj rfl (List.forall₂_same.mpr fun v _ ↦ .refl v) (List.reverse_perm _)
  · have hbody := ((hendpoints _ _ (by decide) (by decide)).mp hform).requestBody
    cases hbody.eq_of_isScalar rfl
  · have hline := (hnested _ _ (by decide) (by decide) hform [.item 0, .member "line"]).1
    have hthere : Json.at? [.item 0, .member "line"] (.arr [.obj [("line", .int 1)]]) =
        some (.int 1) := rfl
    have hgone : Json.at? [.item 0, .member "line"] (.arr [.obj []]) = none := rfl
    rw [placed, placed, hthere, hgone] at hline
    cases hline

/-- An endpoint whose payload is an integer of more digits than are written agrees with itself, but
it has no form. -/
theorem comparisonForm_longInteger :
    (placed 1 (.int Json.leastLong)).SameButLine
        (placed 1 (.int Json.leastLong)) ∧
      (placed 1 (.int Json.leastLong)).toJson.Unsplit ∧
      (placed 1 (.int Json.leastLong)).toJson.depth ≤ 200 ∧
      ∀ form, comparisonForm (placed 1 (.int Json.leastLong)).members ≠ .ok form := by
  refine ⟨.refl _, by decide, (by decide : 2 ≤ 200), fun form hform ↦ ?_⟩
  obtain ⟨⟨hshort, -⟩, -⟩ := comparisonForm_eq_ok_iff.mp hform
  have hbody : (("requestBodySchema" : Text), Json.int Json.leastLong) ∈
      withoutLine (placed 1 (.int Json.leastLong)).members := by
    rw [Endpoint.withoutLine_members]
    simp [Endpoint.membersWithoutLine, placed]
  have hshort : Json.isLong Json.leastLong = false :=
    Json.isLong_eq_false_iff.mpr (Json.short_obj.mp hshort _ hbody)
  rw [Json.isLong_leastLong] at hshort
  cases hshort

end Reconcile

end RouteCatalog
