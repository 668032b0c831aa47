import RouteCatalog.Catalog.Reconcile
import RouteCatalog.Proofs.Json.Canonical

/-!
# The persisted shape of an endpoint

The names of an endpoint's members depend on whether it has a description and a line only, and they
differ. Two endpoints whose shapes without the line differ in the order of members at most agree in
every field but the line, up to the order of members inside their payloads
(`reordered_withoutLine_iff`).
-/

namespace RouteCatalog

/-- Members without the line. -/
def Reconcile.withoutLine (members : List (Text × Json)) : List (Text × Json) :=
  members.filter fun m ↦ m.1 ≠ "line"

namespace Endpoint

/-! ## Names of members -/

/-- The names of the members of an endpoint that has, or lacks, a description and a line. -/
def memberNames (described placed : Bool) : List Text :=
  ["method", "path"] ++ (if described then ["description"] else []) ++
    ["parameters", "requestBodySchema", "response", "framework", "sourceFile"] ++
      (if placed then ["line"] else [])

theorem keys_members (e : Endpoint) :
    e.members.map Prod.fst = memberNames e.description.isSome e.line.isSome := by
  rcases e with ⟨_, _, _, _, description, _, _, _, line⟩
  cases description <;> cases line <;> rfl

theorem nodup_keys_members (e : Endpoint) : (e.members.map Prod.fst).Nodup := by
  have hnames : ∀ described placed, (memberNames described placed).Nodup := by decide
  rw [keys_members]
  exact hnames _ _

theorem withoutLine_members (e : Endpoint) :
    Reconcile.withoutLine e.members = e.membersWithoutLine := by
  rcases e with ⟨_, _, _, _, description, _, _, _, line⟩
  cases description <;> cases line <;> rfl

theorem nodup_keys_membersWithoutLine (e : Endpoint) :
    (e.membersWithoutLine.map Prod.fst).Nodup := by
  rw [← withoutLine_members]
  exact (nodup_keys_members e).sublist (List.filter_sublist.map Prod.fst)

/-- What holds of the values that the fields give holds of the values of all members. -/
theorem forall_mem_members {p : Json → Prop} {e : Endpoint} (hverb : p (.str e.verb.name))
    (hpath : p (.str e.path)) (hdescription : ∀ t, e.description = some t → p (.str t))
    (hparameters : p (.arr (e.parameters.map Parameter.toJson))) (hbody : p e.requestBody)
    (hresponse : p (responseJson e.response)) (hframework : p (.str e.framework))
    (hfile : p (.str e.sourceFile)) (hline : ∀ n, e.line = some n → p (.int n)) :
    ∀ m ∈ e.members, p m.2 := by
  intro m hm
  simp only [members, membersWithoutLine, List.mem_append, List.mem_cons, List.not_mem_nil,
    or_false] at hm
  rcases hm with (rfl | rfl | hm | rfl | rfl | rfl | rfl | rfl) | hm
  · exact hverb
  · exact hpath
  · cases hd : e.description with
    | none => rw [hd] at hm; cases hm
    | some d =>
      rw [hd] at hm
      rw [List.mem_singleton.mp hm]
      exact hdescription d hd
  · exact hparameters
  · exact hbody
  · exact hresponse
  · exact hframework
  · exact hfile
  · cases hl : e.line with
    | none => rw [hl] at hm; cases hm
    | some l =>
      rw [hl] at hm
      rw [List.mem_singleton.mp hm]
      exact hline l hl

/-! ## Nesting -/

/-- The payloads of an endpoint are nested within a number of levels. -/
structure NestedWithin (n : Nat) (e : Endpoint) : Prop where
  requestBody : e.requestBody.depth ≤ n
  response : ∀ r, e.response = some r → r.body.depth ≤ n

theorem depth_toJson_le {n : Nat} {e : Endpoint} (h : e.NestedWithin n) :
    e.toJson.depth ≤ n + 3 := by
  have hparameters : (Json.arr (e.parameters.map Parameter.toJson)).depth ≤ 2 := by
    refine Nat.succ_le_succ (Json.depthItems_le_iff.mpr fun v hv ↦ ?_)
    obtain ⟨parameter, -, rfl⟩ := List.mem_map.mp hv
    exact Nat.le_refl 1
  have hresponse : (responseJson e.response).depth ≤ n + 1 := by
    cases hr : e.response with
    | none => exact Nat.zero_le _
    | some r =>
      refine Nat.succ_le_succ (Json.depthMembers_le_iff.mpr fun m hm ↦ ?_)
      rcases List.mem_cons.mp hm with rfl | hm
      · exact Nat.zero_le n
      · rw [List.mem_singleton.mp hm]
        exact h.response r hr
  have hscalar (t : Text) : (Json.str t).depth ≤ n + 2 := Nat.zero_le _
  have hvalues : ∀ m ∈ e.members, m.2.depth ≤ n + 2 :=
    forall_mem_members (p := fun v ↦ v.depth ≤ n + 2) (hscalar _) (hscalar _)
      (fun t _ ↦ hscalar t) (hparameters.trans (by omega)) (h.requestBody.trans (by omega))
      (hresponse.trans (by omega)) (hscalar _) (hscalar _) (fun _ _ ↦ Nat.zero_le _)
  exact Nat.succ_le_succ (Json.depthMembers_le_iff.mpr hvalues)

/-! ## Storing -/

/-- What the fields of an endpoint say is read back as it was written. -/
structure Storable (e : Endpoint) : Prop where
  path : e.path.Unsplit
  framework : e.framework.Unsplit
  sourceFile : e.sourceFile.Unsplit
  description : ∀ t, e.description = some t → t.Unsplit
  parameters : ∀ p ∈ e.parameters, p.name.Unsplit
  requestBody : e.requestBody.Storable
  response : ∀ r, e.response = some r → (Json.int r.status).ShortHere ∧ r.body.Storable
  line : ∀ n, e.line = some n → (Json.int n).ShortHere

private theorem unsplit_memberNames :
    ∀ described placed, ∀ name ∈ memberNames described placed, name.Unsplit := by decide

private theorem unsplit_names :
    (∀ v : Verb, v.name.Unsplit) ∧ ∀ k : Parameter.Kind, k.name.Unsplit :=
  ⟨fun v ↦ by cases v <;> decide, fun k ↦ by cases k <;> decide⟩

private theorem nodup_parameter_keys : (["name", "type", "required"] : List Text).Nodup := by
  decide

private theorem nodup_response_keys : (["status", "example"] : List Text).Nodup := by decide

theorem storable_toJson_parameter {p : Parameter} (h : p.name.Unsplit) : p.toJson.Storable := by
  have hkeys : ∀ key ∈ (["name", "type", "required"] : List Text), key.Unsplit := by decide
  refine Json.storable_obj nodup_parameter_keys fun m hm ↦ ⟨hkeys _ (List.mem_map_of_mem hm), ?_⟩
  simp only [List.mem_cons, List.not_mem_nil, or_false] at hm
  rcases hm with rfl | rfl | rfl
  · exact Json.storable_str h
  · exact Json.storable_str (unsplit_names.2 p.kind)
  · exact ⟨trivial, trivial, trivial⟩

theorem storable_toJson_response {r : Response} (hstatus : (Json.int r.status).ShortHere)
    (hbody : r.body.Storable) : r.toJson.Storable := by
  have hkeys : ∀ key ∈ (["status", "example"] : List Text), key.Unsplit := by decide
  refine Json.storable_obj nodup_response_keys fun m hm ↦ ⟨hkeys _ (List.mem_map_of_mem hm), ?_⟩
  simp only [List.mem_cons, List.not_mem_nil, or_false] at hm
  rcases hm with rfl | rfl
  · exact Json.storable_int hstatus
  · exact hbody

theorem Storable.toJson {e : Endpoint} (h : e.Storable) : e.toJson.Storable := by
  have hkeys : ∀ m ∈ e.members, m.1.Unsplit := by
    intro m hm
    have hname := List.mem_map_of_mem (f := Prod.fst) hm
    rw [keys_members] at hname
    exact unsplit_memberNames _ _ _ hname
  have hvalues : ∀ m ∈ e.members, m.2.Storable := by
    refine forall_mem_members (Json.storable_str (unsplit_names.1 e.verb))
      (Json.storable_str h.path) (fun t ht ↦ Json.storable_str (h.description t ht)) ?_
      h.requestBody ?_ (Json.storable_str h.framework) (Json.storable_str h.sourceFile)
      (fun n hn ↦ Json.storable_int (h.line n hn))
    · refine Json.storable_arr fun v hv ↦ ?_
      obtain ⟨p, hp, rfl⟩ := List.mem_map.mp hv
      exact storable_toJson_parameter (h.parameters p hp)
    · cases hr : e.response with
      | none => exact ⟨trivial, trivial, trivial⟩
      | some r => exact storable_toJson_response (h.response r hr).1 (h.response r hr).2
  exact Json.storable_obj (nodup_keys_members e) fun m hm ↦ ⟨hkeys m hm, hvalues m hm⟩

/-! ## Agreement -/

/-- The payloads of two responses differ in the order of members at most. -/
inductive SameResponse : Option Response → Option Response → Prop
  | none : SameResponse none none
  /-- The statuses are one, and the examples are alike. -/
  | some {status : Int} {body body' : Json} (hbody : Json.Reordered body body') :
    SameResponse (some ⟨status, body⟩) (some ⟨status, body'⟩)

/-- The endpoints agree in every field but the line, their payloads up to the order of members. -/
structure SameButLine (e e' : Endpoint) : Prop where
  verb : e.verb = e'.verb
  path : e.path = e'.path
  framework : e.framework = e'.framework
  sourceFile : e.sourceFile = e'.sourceFile
  description : e.description = e'.description
  parameters : e.parameters = e'.parameters
  requestBody : Json.Reordered e.requestBody e'.requestBody
  response : SameResponse e.response e'.response

variable {e e' : Endpoint}

theorem SameButLine.key (h : e.SameButLine e') : e.key = e'.key := by
  rw [Endpoint.key, Endpoint.key, h.verb, h.path]

theorem SameButLine.refl (e : Endpoint) : e.SameButLine e := by
  refine ⟨rfl, rfl, rfl, rfl, rfl, rfl, .refl _, ?_⟩
  cases e.response with
  | none => exact .none
  | some r => exact .some (.refl r.body)

/-- No name of a verb has a blank, so a key tells the verb from the path. -/
theorem key_eq_iff : e.key = e'.key ↔ e.verb = e'.verb ∧ e.path = e'.path := by
  constructor
  · rcases e with ⟨verb, path⟩
    rcases e' with ⟨verb', path'⟩
    cases verb <;> cases verb' <;> simp [key, Verb.name, Text.ofString]
  · rintro ⟨hverb, hpath⟩
    rw [key, key, hverb, hpath]

private theorem Verb.name_injective {v w : Verb} (h : v.name = w.name) : v = w := by
  have hw := Verb.ofName?_name w
  rw [← h, Verb.ofName?_name] at hw
  exact Option.some.inj hw

private theorem Kind.name_injective {k l : Parameter.Kind} (h : k.name = l.name) : k = l := by
  have hl := Parameter.Kind.ofName?_name l
  rw [← h, Parameter.Kind.ofName?_name] at hl
  exact Option.some.inj hl

private theorem str_inj {s t : Text}
    (h : Option.Rel Json.Reordered (some (.str s)) (some (.str t))) : s = t := by
  cases h with
  | some h => exact Json.str.inj (h.eq_of_isScalar rfl)

private theorem parameter_eq {p q : Parameter} (h : Json.Reordered p.toJson q.toJson) : p = q := by
  obtain ⟨name, kind, required⟩ := p
  obtain ⟨name', kind', required'⟩ := q
  have hmember := h.member? nodup_parameter_keys
  have hname : name = name' := str_inj (hmember "name")
  have hkind : kind = kind' := Kind.name_injective (str_inj (hmember "type"))
  have hrequired : required = required' := by
    cases hmember "required" with
    | some h => exact Json.bool.inj (h.eq_of_isScalar rfl)
  rw [hname, hkind, hrequired]

private theorem parameters_eq {ps qs : List Parameter}
    (h : List.Forall₂ Json.Reordered (ps.map Parameter.toJson) (qs.map Parameter.toJson)) :
    ps = qs := by
  rw [List.forall₂_map_left_iff, List.forall₂_map_right_iff] at h
  exact List.forall₂_eq_eq_eq ▸ h.imp fun _ _ ↦ parameter_eq

private theorem sameResponse_of_reordered {r r' : Option Response}
    (h : Json.Reordered (responseJson r) (responseJson r')) : SameResponse r r' := by
  cases r with
  | none =>
    cases r' with
    | none => exact .none
    | some r' => cases h
  | some r =>
    cases r' with
    | none => cases h
    | some r' =>
      obtain ⟨status, body⟩ := r
      obtain ⟨status', body'⟩ := r'
      have hmember := Json.Reordered.member? h nodup_response_keys
      have hstatus : status = status' := by
        cases hmember "status" with
        | some h => exact Json.int.inj (h.eq_of_isScalar rfl)
      subst hstatus
      cases hmember "example" with
      | some h => exact .some h

private theorem description_eq {d d' : Option Text}
    (h : Option.Rel Json.Reordered (d.map .str) (d'.map .str)) : d = d' := by
  cases d with
  | none =>
    cases d' with
    | none => rfl
    | some t' => cases h
  | some t =>
    cases d' with
    | none => cases h
    | some t' => rw [str_inj h]

private theorem reordered_responseJson {r r' : Option Response} (h : SameResponse r r') :
    Json.Reordered (responseJson r) (responseJson r') := by
  cases h with
  | none => rfl
  | some hbody => exact .of_forall₂ rfl (.cons (.refl _) (.cons hbody .nil))

private theorem member?_membersWithoutLine (e : Endpoint) :
    Json.member? "parameters" e.membersWithoutLine =
        some (.arr (e.parameters.map Parameter.toJson)) ∧
      Json.member? "requestBodySchema" e.membersWithoutLine = some e.requestBody ∧
      Json.member? "response" e.membersWithoutLine = some (responseJson e.response) ∧
      Json.member? "framework" e.membersWithoutLine = some (.str e.framework) ∧
      Json.member? "sourceFile" e.membersWithoutLine = some (.str e.sourceFile) ∧
      Json.member? "description" e.membersWithoutLine = e.description.map .str := by
  obtain ⟨_, _, _, _, description, _, _, _, _⟩ := e
  cases description <;> exact ⟨rfl, rfl, rfl, rfl, rfl, rfl⟩

theorem reordered_withoutLine_iff :
    Json.Reordered (.obj e.membersWithoutLine) (.obj e'.membersWithoutLine) ↔
      SameButLine e e' := by
  constructor
  · intro h
    -- The members that are always there are at the same keys on both sides.
    have hmember := h.member? (nodup_keys_membersWithoutLine e')
    obtain ⟨hparameters, hbody, hresponse, hframework, hfile, hdescription⟩ :=
      member?_membersWithoutLine e
    obtain ⟨hparameters', hbody', hresponse', hframework', hfile', hdescription'⟩ :=
      member?_membersWithoutLine e'
    refine ⟨Verb.name_injective (str_inj (hmember "method")), str_inj (hmember "path"),
      str_inj (hframework ▸ hframework' ▸ hmember "framework"),
      str_inj (hfile ▸ hfile' ▸ hmember "sourceFile"),
      description_eq (hdescription ▸ hdescription' ▸ hmember "description"), ?_, ?_, ?_⟩
    · have hitems := Option.rel_some_some.mp (hparameters ▸ hparameters' ▸ hmember "parameters")
      exact parameters_eq (Json.reordered_arr_iff.mp hitems)
    · exact Option.rel_some_some.mp (hbody ▸ hbody' ▸ hmember "requestBodySchema")
    · exact sameResponse_of_reordered
        (Option.rel_some_some.mp (hresponse ▸ hresponse' ▸ hmember "response"))
  · intro h
    obtain ⟨verb, path, framework, file, description, parameters, body, response, line⟩ := e
    obtain ⟨_, _, _, _, _, _, body', response', line'⟩ := e'
    obtain ⟨rfl, rfl, rfl, rfl, rfl, rfl, hbody, hresponse⟩ := h
    have hpayloads := List.Forall₂.cons hbody (.cons (reordered_responseJson hresponse)
      (.cons (.refl (.str framework)) (.cons (.refl (.str file)) .nil)))
    cases description with
    | none => exact .of_forall₂ rfl (.cons (.refl _) (.cons (.refl _) (.cons (.refl _) hpayloads)))
    | some d =>
      exact .of_forall₂ rfl
        (.cons (.refl _) (.cons (.refl _) (.cons (.refl _) (.cons (.refl _) hpayloads))))

end Endpoint

end RouteCatalog
