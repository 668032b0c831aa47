import RouteCatalog.Catalog.Basic
import RouteCatalog.Proofs.Catalog.Endpoint
import RouteCatalog.Proofs.Fallible

/-!
# What reconciliation counts

The earlier entries are arbitrary values. Of those that are objects, the last one with an endpoint's
key is the one that the endpoint is compared with, up to the order of members and leaving out the
line. The list of keys and forms that is searched depends on the entries only through the entries of
each key, in order (`lastForm?_eq`), which is why so many changes to it do not matter.

Between two catalogs whose keys differ the count goes both ways: each side has at most one endpoint
to be compared with, so what is counted is what they have in common (`countCommon_comm`).
-/

namespace RouteCatalog.Reconcile

/-- A value that is an object. -/
def isObject : Json → Bool
  | .obj _ => true
  | _ => false

/-- The entries that are objects with a key, in order. -/
def entriesWith (key : Text) (items : List Json) : List (List (Text × Json)) :=
  (objects items).filter fun members ↦ entryKey members = .ok key

/-- The last entry with the endpoint's key says what the endpoint does, the line aside. -/
def Agrees (items : List Json) (e : Endpoint) : Prop :=
  ∃ members, (entriesWith e.key items).getLast? = some members ∧
    Json.Reordered (.obj (withoutLine members)) (.obj (withoutLine e.members))

open Classical in
/-- The number of endpoints that agree with earlier entries. -/
noncomputable def countAgreeing (items : List Json) (endpoints : List Endpoint) : Nat :=
  endpoints.countP fun e ↦ Agrees items e

open Classical in
/-- The number of endpoints that other endpoints say as well, the line aside. -/
noncomputable def countCommon (endpoints others : List Endpoint) : Nat :=
  endpoints.countP fun e ↦ ∃ o ∈ others, o.SameButLine e

/-- The last of the endpoints with the verb and the path of an endpoint agrees with it. -/
def AgreesWithLast (endpoints : List Endpoint) (e : Endpoint) : Prop :=
  ∃ last, (endpoints.filter fun o ↦ o.verb = e.verb ∧ o.path = e.path).getLast? = some last ∧
    last.SameButLine e

open Classical in
/-- The number of endpoints that agree with the last one of their verb and path. -/
noncomputable def countAgreeingWithLast (endpoints : List Endpoint) : Nat :=
  endpoints.countP fun e ↦ AgreesWithLast endpoints e

/-- The values differ in the line at most, if they are objects. -/
def SameButLine : Json → Json → Prop
  | .obj members, .obj members' => withoutLine members = withoutLine members'
  | v, w => v = w

/-! ## Keys and forms -/

theorem entryKey_withoutLine (members : List (Text × Json)) :
    entryKey (withoutLine members) = entryKey members := by
  have hmember (key : Text) (hkey : key ≠ "line") :
      Json.member? key (withoutLine members) = Json.member? key members :=
    Json.member?_filter (fun k ↦ k ≠ "line") (by simpa using hkey) members
  simp only [entryKey]
  rw [hmember _ (by decide), hmember _ (by decide)]

theorem comparisonForm_eq (members : List (Text × Json)) :
    comparisonForm members = (Json.obj (withoutLine members)).canonical := rfl

/-- The text that entries are compared by, where they can be written. -/
def formText (members : List (Text × Json)) : Text :=
  (Json.obj (withoutLine members)).sorted.compact

theorem comparisonForm_eq_ok_iff {members : List (Text × Json)} {form : Text} :
    comparisonForm members = .ok form ↔
      ((Json.obj (withoutLine members)).Short ∧
        (Json.obj (withoutLine members)).depth ≤ Json.Writing.line.maxDepth) ∧
      formText members = form := Json.canonical_eq_ok_iff

theorem entry_eq_ok_iff {members : List (Text × Json)} {key form : Text} :
    entry members = .ok (key, form) ↔
      comparisonForm members = .ok form ∧ entryKey members = .ok key := by
  rw [entry]
  cases comparisonForm members with
  | error why => simp [bind, Except.bind]
  | ok form' =>
    cases entryKey members with
    | error why => simp [bind, Except.bind]
    | ok key' => simp [bind, Except.bind, pure, Except.pure, and_comm]

/-- An entry that holds nothing but a long integer has no form. -/
theorem comparisonForm_of_isLong {name : Text} {i : Int} (hname : name ≠ "line")
    (hi : Json.isLong i = true) : comparisonForm [(name, .int i)] = .error .longInteger := by
  have hmembers : withoutLine [(name, .int i)] = [(name, .int i)] := by
    simp [withoutLine, hname]
  have hsorted : (Json.obj [(name, .int i)]).sorted = .obj [(name, .int i)] := by
    rw [Json.sorted_obj, Json.sortMembers, List.map_singleton, List.mergeSort_singleton]
    rfl
  have hfault : Json.fault? .line Json.Writing.line.maxDepth (.obj [(name, .int i)]) =
      some .longInteger := by
    rw [Json.fault?, if_neg (by decide), Json.membersFault?, Json.fault?, if_pos hi]
    rfl
  rw [comparisonForm_eq, hmembers, Json.canonical, hsorted, Json.write, hfault]

theorem entry_eq_of_withoutLine {members members' : List (Text × Json)}
    (h : withoutLine members = withoutLine members') : entry members = entry members' := by
  rw [entry, entry, comparisonForm_eq, comparisonForm_eq, ← entryKey_withoutLine members,
    ← entryKey_withoutLine members', h]

theorem mapM_entry_objects {items items' : List Json} (h : List.Forall₂ SameButLine items' items) :
    (objects items').mapM entry = (objects items).mapM entry := by
  induction h with
  | nil => rfl
  | @cons v w items' items hv _ ih =>
    cases v with
    | obj members =>
      cases w with
      | obj members' =>
        have hmembers : withoutLine members = withoutLine members' := hv
        rw [objects, objects, List.filterMap_cons, List.filterMap_cons]
        dsimp only
        rw [List.mapM_cons, List.mapM_cons, entry_eq_of_withoutLine hmembers, ← objects, ← objects,
          ih]
      | null | bool | int | float | str | arr => cases hv
    | null | bool | int | float | str | arr =>
      cases w with
      | obj => cases hv
      | null | bool | int | float | str | arr => exact ih

theorem lastForm?_of_mapM {items : List Json} {known : List (Text × Text)}
    (h : (objects items).mapM entry = .ok known) (key : Text) :
    lastForm? known key = (entriesWith key items).getLast?.map formText := by
  have hforms : (known.filter fun e ↦ e.1 = key).map Prod.snd =
      (entriesWith key items).map formText := by
    rw [entriesWith]
    generalize objects items = entries at h
    induction entries generalizing known with
    | nil => cases h; rfl
    | cons members entries ih =>
      obtain ⟨⟨key', form⟩, rest, hentry, hrest, rfl⟩ := exists_of_mapM_cons_eq_ok h
      obtain ⟨hform, hkey⟩ := entry_eq_ok_iff.mp hentry
      have htext : formText members = form := (comparisonForm_eq_ok_iff.mp hform).2
      rw [List.filter_cons, List.filter_cons, hkey]
      by_cases heq : key' = key
      · simp [heq, htext, ih hrest]
      · simp [heq, ih hrest]
  -- The first of the reversed entries with the key is the last of the entries with it.
  rw [lastForm?, ← List.head?_filter, List.filter_reverse, ← List.getLast?_eq_head?_reverse,
    ← List.getLast?_map, ← List.getLast?_map, hforms]

theorem mem_of_mem_objects {items : List Json} {members : List (Text × Json)}
    (h : members ∈ objects items) : .obj members ∈ items := by
  obtain ⟨v, hv, hmembers⟩ := List.mem_filterMap.mp h
  cases v with
  | obj members' =>
    cases hmembers
    exact hv
  | _ => cases hmembers

/-! ## Values that are compared -/

theorem depth_withoutLine_le (members : List (Text × Json)) :
    (Json.obj (withoutLine members)).depth ≤ (Json.obj members).depth := by
  refine Nat.succ_le_succ (Json.depthMembers_le_iff.mpr fun m hm ↦ ?_)
  exact Json.depthMembers_le_iff.mp le_rfl m (List.mem_of_mem_filter hm)

/-- A value that is compared as it should be. -/
def Comparable (v : Json) : Prop :=
  v.Unsplit ∧ v.Distinct ∧ v.Short ∧ v.depth ≤ Json.Writing.line.maxDepth

instance : DecidablePred Comparable := fun v ↦
  inferInstanceAs (Decidable (v.Unsplit ∧ v.Distinct ∧ v.Short ∧ _ ≤ _))

theorem Comparable.storable {v : Json} (h : Comparable v) : v.Storable :=
  ⟨h.1, h.2.1, h.2.2.1⟩

theorem Comparable.withoutLine {members : List (Text × Json)}
    (h : Comparable (.obj members)) : Comparable (.obj (withoutLine members)) := by
  obtain ⟨hunsplit, hdistinct, hshort, hdepth⟩ := h
  rw [Json.unsplit_obj] at hunsplit
  rw [Json.distinct_obj] at hdistinct
  rw [Json.short_obj] at hshort
  refine ⟨Json.unsplit_obj.mpr fun m hm ↦ hunsplit m (List.mem_of_mem_filter hm),
    Json.distinct_obj.mpr ⟨hdistinct.1.sublist (List.filter_sublist.map Prod.fst), fun m hm ↦
      hdistinct.2 m (List.mem_of_mem_filter hm)⟩,
    Json.short_obj.mpr fun m hm ↦ hshort m (List.mem_of_mem_filter hm), ?_⟩
  exact (depth_withoutLine_le members).trans hdepth

/-- A value that can be written on a line has a key and a form, if it is an object. -/
theorem exists_entry {members : List (Text × Json)} (hshort : (Json.obj members).Short)
    (hdepth : (Json.obj members).depth ≤ Json.Writing.line.maxDepth) :
    ∃ found, entry members = .ok found := by
  have hpart (name : Text) :
      ∃ t, ((Json.member? name members).getD .null).display = .ok t := by
    cases hmember : Json.member? name members with
    | none => exact ⟨_, rfl⟩
    | some v =>
      have hmem := Json.mem_of_member? hmember
      have hinside : v.depth ≤ Json.Writing.literal.maxDepth :=
        (Nat.le_succ_of_le (Json.depthMembers_le_iff.mp le_rfl _ hmem)).trans hdepth
      have hliteral := Json.write_of_short (Json.short_obj.mp hshort _ hmem) hinside
      cases v with
      | str t => exact ⟨t, rfl⟩
      | null | bool | int | float | arr | obj => exact ⟨_, hliteral⟩
  obtain ⟨method, hmethod⟩ := hpart "method"
  obtain ⟨path, hpath⟩ := hpart "path"
  have hkey : entryKey members = .ok (method ++ " " ++ path) := by
    rw [entryKey]
    dsimp only
    rw [hmethod, hpath]
    rfl
  refine ⟨_, entry_eq_ok_iff.mpr ⟨comparisonForm_eq_ok_iff.mpr ⟨⟨?_, ?_⟩, rfl⟩, hkey⟩⟩
  · exact Json.short_obj.mpr fun m hm ↦ Json.short_obj.mp hshort m (List.mem_of_mem_filter hm)
  · exact (depth_withoutLine_le members).trans hdepth

theorem exists_mapM_entry {items : List Json} (h : ∀ members ∈ objects items,
      (Json.obj members).Short ∧ (Json.obj members).depth ≤ Json.Writing.line.maxDepth) :
    ∃ known, (objects items).mapM entry = .ok known := by
  generalize objects items = entries at h
  induction entries with
  | nil => exact ⟨[], rfl⟩
  | cons members entries ih =>
    obtain ⟨hfirst, hrest⟩ := List.forall_mem_cons.mp h
    obtain ⟨found, hfound⟩ := exists_entry hfirst.1 hfirst.2
    obtain ⟨known, hknown⟩ := ih hrest
    refine ⟨found :: known, ?_⟩
    rw [List.mapM_cons, hfound, hknown]
    rfl

theorem Comparable.exists_mapM_entry {items : List Json} (h : ∀ v ∈ items, Comparable v) :
    ∃ known, (objects items).mapM entry = .ok known :=
  Reconcile.exists_mapM_entry fun _ hm ↦ (h _ (mem_of_mem_objects hm)).2.2

theorem Comparable.comparisonForm {members : List (Text × Json)} (h : Comparable (.obj members)) :
    comparisonForm members = .ok (formText members) :=
  comparisonForm_eq_ok_iff.mpr ⟨h.withoutLine.2.2, rfl⟩

theorem comparisonForm_eq_iff {members members' : List (Text × Json)}
    (h : Comparable (.obj members)) (h' : Comparable (.obj members')) :
    comparisonForm members = comparisonForm members' ↔
      Json.Reordered (.obj (withoutLine members)) (.obj (withoutLine members')) :=
  Json.canonical_eq_iff h.withoutLine.storable h'.withoutLine.storable h.withoutLine.2.2.2
    h'.withoutLine.2.2.2

/-! ## Counting -/

/-- The last form with an endpoint's key is that of the endpoint when the last entry agrees. -/
theorem lastForm?_eq_some_iff {items : List Json} {known : List (Text × Text)} {e : Endpoint}
    (h : (objects items).mapM entry = .ok known) (hitems : ∀ v ∈ items, Comparable v)
    (he : Comparable e.toJson) :
    lastForm? known e.key = some (formText e.members) ↔ Agrees items e := by
  rw [lastForm?_of_mapM h, Option.map_eq_some_iff, Agrees]
  refine exists_congr fun members ↦ and_congr_right fun hlast ↦ ?_
  have hmembers : Comparable (.obj members) :=
    hitems _ (mem_of_mem_objects (List.mem_of_mem_filter (List.mem_of_getLast? hlast)))
  rw [← comparisonForm_eq_iff hmembers he, hmembers.comparisonForm, he.comparisonForm,
    Except.ok.injEq]

theorem countAmong_eq {known : List (Text × Text)} {endpoints : List Endpoint}
    (h : ∀ e ∈ endpoints, comparisonForm e.members = .ok (formText e.members)) :
    countAmong known endpoints =
      .ok (endpoints.countP fun e ↦ lastForm? known e.key = some (formText e.members)) := by
  induction endpoints with
  | nil => rfl
  | cons e rest ih =>
    obtain ⟨hfirst, hrest⟩ := List.forall_mem_cons.mp h
    rw [countAmong, hfirst, ih hrest, List.countP_cons]
    simp only [bind, Except.bind, pure, Except.pure, decide_eq_true_eq, Except.ok.injEq]
    split
    · rfl
    · rfl

theorem countAmong_eq_ok_iff {known : List (Text × Text)} {endpoints : List Endpoint} {n : Nat} :
    countAmong known endpoints = .ok n ↔
      (∀ e ∈ endpoints, comparisonForm e.members = .ok (formText e.members)) ∧
        (endpoints.countP fun e ↦ lastForm? known e.key = some (formText e.members)) = n := by
  have hforms (n : Nat) (h : countAmong known endpoints = .ok n) :
      ∀ e ∈ endpoints, comparisonForm e.members = .ok (formText e.members) := by
    induction endpoints generalizing n with
    | nil => exact fun e he ↦ absurd he List.not_mem_nil
    | cons e rest ih =>
      rw [countAmong] at h
      obtain ⟨form, hform, h⟩ := exists_of_bind_eq_ok h
      obtain ⟨m, hrest, -⟩ := exists_of_bind_eq_ok h
      have htext : formText e.members = form := (comparisonForm_eq_ok_iff.mp hform).2
      exact List.forall_mem_cons.mpr ⟨htext ▸ hform, ih m hrest⟩
  constructor
  · intro h
    refine ⟨hforms n h, ?_⟩
    rwa [countAmong_eq (hforms n h), Except.ok.injEq] at h
  · rintro ⟨h, rfl⟩
    exact countAmong_eq h

theorem countIn_of_mapM {items : List Json} {known : List (Text × Text)}
    {endpoints : List Endpoint} (h : (objects items).mapM entry = .ok known) :
    countIn items endpoints = countAmong known endpoints := by
  rw [countIn, h]
  rfl

theorem countIn_eq {endpoints : List Endpoint} {items : List Json}
    (hitems : ∀ v ∈ items, Comparable v) (hendpoints : ∀ e ∈ endpoints, Comparable e.toJson) :
    countIn items endpoints = .ok (countAgreeing items endpoints) := by
  obtain ⟨known, hknown⟩ := Comparable.exists_mapM_entry hitems
  rw [countIn_of_mapM hknown, countAmong_eq fun e he ↦ (hendpoints e he).comparisonForm]
  refine congrArg Except.ok (List.countP_congr fun e he ↦ ?_)
  simp only [decide_eq_true_eq]
  exact lastForm?_eq_some_iff hknown hitems (hendpoints e he)

theorem countUnchanged_obj {endpoints : List Endpoint} {members : List (Text × Json)}
    {items : List Json} (h : Json.member? "endpoints" members = some (.arr items)) :
    countUnchanged endpoints (.obj members) = (countIn items endpoints).mapError .unwritable := by
  have hne : members.isEmpty = false := by
    cases members with
    | nil => cases h
    | cons => rfl
  rw [countUnchanged, isNothing, hne, if_neg (by decide), itemsOf, h]
  rfl

/-! ## What does not matter -/

theorem objects_filter_isObject (items : List Json) :
    objects (items.filter isObject) = objects items := by
  induction items with
  | nil => rfl
  | cons v items ih =>
    cases v with
    | obj members =>
      rw [List.filter_cons_of_pos rfl, objects, objects, List.filterMap_cons,
        List.filterMap_cons]
      rw [objects, objects] at ih
      rw [ih]
    | _ => exact ih

theorem countAgreeing_eq_of_entriesWith {items items' : List Json}
    (h : ∀ key, entriesWith key items' = entriesWith key items) (endpoints : List Endpoint) :
    countAgreeing items' endpoints = countAgreeing items endpoints := by
  have hagrees (e : Endpoint) : Agrees items' e ↔ Agrees items e := by rw [Agrees, Agrees, h]
  refine List.countP_congr fun e _ ↦ ?_
  simp only [decide_eq_true_eq, hagrees]

theorem comparisonForm_members_of_line (e : Endpoint) (line : Option Int) :
    comparisonForm { e with line := line }.members = comparisonForm e.members := by
  rw [comparisonForm_eq, comparisonForm_eq, Endpoint.withoutLine_members,
    Endpoint.withoutLine_members]
  rfl

theorem countAmong_eq_of_lines {endpoints endpoints' : List Endpoint}
    (h : List.Forall₂ (fun e' e ↦ ∃ line, e' = { e with line := line }) endpoints' endpoints)
    (known : List (Text × Text)) : countAmong known endpoints' = countAmong known endpoints := by
  induction h with
  | nil => rfl
  | @cons e' e _ _ he _ ih =>
    obtain ⟨line, rfl⟩ := he
    have hkey : Endpoint.key { e with line := line } = e.key := rfl
    rw [countAmong, countAmong, comparisonForm_members_of_line, ih, hkey]

/-- The lines of endpoints do not matter, whatever the earlier catalog is. -/
theorem countUnchanged_eq_of_lines {endpoints endpoints' : List Endpoint}
    (h : List.Forall₂ (fun e' e ↦ ∃ line, e' = { e with line := line }) endpoints' endpoints)
    (previous : Json) : countUnchanged endpoints' previous = countUnchanged endpoints previous := by
  have hcount (items : List Json) : countIn items endpoints' = countIn items endpoints := by
    rw [countIn, countIn, funext (countAmong_eq_of_lines h)]
  simp only [countUnchanged, hcount]

/-! ## Two catalogs -/

theorem sameButLine_iff {e e' : Endpoint} (he : Comparable e.toJson)
    (he' : Comparable e'.toJson) :
    comparisonForm e.members = comparisonForm e'.members ↔ e.SameButLine e' := by
  rw [comparisonForm_eq_iff he he', Endpoint.withoutLine_members, Endpoint.withoutLine_members,
    Endpoint.reordered_withoutLine_iff]

theorem sameButLine_symm {e e' : Endpoint} (he : Comparable e.toJson)
    (he' : Comparable e'.toJson) (h : e.SameButLine e') : e'.SameButLine e :=
  (sameButLine_iff he' he).mp ((sameButLine_iff he he').mpr h).symm

theorem objects_map_toJson (endpoints : List Endpoint) :
    objects (endpoints.map Endpoint.toJson) = endpoints.map Endpoint.members := by
  induction endpoints with
  | nil => rfl
  | cons e endpoints ih => exact congrArg (e.members :: ·) ih

theorem entriesWith_map_toJson (key : Text) (endpoints : List Endpoint) :
    entriesWith key (endpoints.map Endpoint.toJson) =
      (endpoints.filter fun e ↦ e.key = key).map Endpoint.members := by
  have hkey (e : Endpoint) : entryKey e.members = .ok key ↔ e.key = key := by
    have hok : entryKey e.members = .ok e.key := rfl
    rw [hok, Except.ok.injEq]
  rw [entriesWith, objects_map_toJson, List.filter_map]
  refine congrArg (List.map Endpoint.members) (List.filter_congr fun e _ ↦ ?_)
  exact decide_eq_decide.mpr (hkey e)

/-- Among the entries of a catalog the last one with a key is that of its last endpoint with the
verb and the path. -/
theorem agrees_map_toJson_iff {endpoints : List Endpoint} {e : Endpoint} :
    Agrees (endpoints.map Endpoint.toJson) e ↔ AgreesWithLast endpoints e := by
  have hfilter : (endpoints.filter fun o ↦ o.key = e.key) =
      endpoints.filter fun o ↦ o.verb = e.verb ∧ o.path = e.path := by
    simp only [Endpoint.key_eq_iff]
  rw [Agrees, AgreesWithLast, entriesWith_map_toJson, hfilter, List.getLast?_map]
  constructor
  · rintro ⟨members, hmembers, h⟩
    obtain ⟨last, hlast, rfl⟩ := Option.map_eq_some_iff.mp hmembers
    rw [Endpoint.withoutLine_members, Endpoint.withoutLine_members] at h
    exact ⟨last, hlast, Endpoint.reordered_withoutLine_iff.mp h⟩
  · rintro ⟨last, hlast, h⟩
    refine ⟨last.members, by rw [hlast]; rfl, ?_⟩
    rw [Endpoint.withoutLine_members, Endpoint.withoutLine_members]
    exact Endpoint.reordered_withoutLine_iff.mpr h

/-- When keys differ, the last entry with an endpoint's key is the only one. -/
theorem agrees_map_toJson {endpoints : List Endpoint} {e : Endpoint}
    (hkeys : (endpoints.map Endpoint.key).Nodup) :
    Agrees (endpoints.map Endpoint.toJson) e ↔ ∃ o ∈ endpoints, o.SameButLine e := by
  rw [agrees_map_toJson_iff]
  constructor
  · rintro ⟨last, hlast, h⟩
    exact ⟨last, List.mem_of_mem_filter (List.mem_of_getLast? hlast), h⟩
  · rintro ⟨o, ho, h⟩
    have hmem : o ∈ endpoints.filter fun o ↦ o.verb = e.verb ∧ o.path = e.path :=
      List.mem_filter.mpr ⟨ho, decide_eq_true ⟨h.verb, h.path⟩⟩
    obtain ⟨last, hlast⟩ :
        ∃ last, (endpoints.filter fun o ↦ o.verb = e.verb ∧ o.path = e.path).getLast? = some last :=
      ⟨_, List.getLast?_eq_some_getLast (List.ne_nil_of_mem hmem)⟩
    obtain ⟨hlastmem, hlastkey⟩ := List.mem_filter.mp (List.mem_of_getLast? hlast)
    obtain rfl : last = o := List.inj_on_of_nodup_map hkeys hlastmem ho
      ((Endpoint.key_eq_iff.mpr (of_decide_eq_true hlastkey)).trans h.key.symm)
    exact ⟨last, hlast, h⟩

theorem countAgreeing_map_toJson_self (endpoints : List Endpoint) :
    countAgreeing (endpoints.map Endpoint.toJson) endpoints = countAgreeingWithLast endpoints := by
  refine List.countP_congr fun e _ ↦ ?_
  simp only [decide_eq_true_eq]
  exact agrees_map_toJson_iff

/-- Endpoints that differ in verb or path all agree with the last one of theirs. -/
theorem countAgreeingWithLast_of_nodup {endpoints : List Endpoint}
    (h : (endpoints.map fun e ↦ (e.verb, e.path)).Nodup) :
    countAgreeingWithLast endpoints = endpoints.length := by
  classical
  have hkeys : (endpoints.map Endpoint.key).Nodup := by
    refine List.Nodup.map_on (fun e he o ho hkey ↦ ?_) (List.Nodup.of_map _ h)
    exact List.inj_on_of_nodup_map h he ho (Prod.ext_iff.mpr (Endpoint.key_eq_iff.mp hkey))
  refine List.countP_eq_length.mpr fun e he ↦ decide_eq_true ?_
  exact agrees_map_toJson_iff.mp ((agrees_map_toJson hkeys).mpr ⟨e, he, .refl e⟩)

/-- The keys of what the second list has in common with the first are those of what the first has in
common with the second. -/
theorem countCommon_comm {endpoints others : List Endpoint}
    (hkeys : (endpoints.map Endpoint.key).Nodup) (hkeys' : (others.map Endpoint.key).Nodup)
    (hendpoints : ∀ e ∈ endpoints, Comparable e.toJson)
    (hothers : ∀ o ∈ others, Comparable o.toJson) :
    countCommon endpoints others = countCommon others endpoints := by
  classical
  have hmem (a b : List Endpoint) (ha : ∀ e ∈ a, Comparable e.toJson)
      (hb : ∀ o ∈ b, Comparable o.toJson) (key : Text) :
      key ∈ (a.filter fun e ↦ ∃ o ∈ b, o.SameButLine e).map Endpoint.key →
        key ∈ (b.filter fun o ↦ ∃ e ∈ a, e.SameButLine o).map Endpoint.key := by
    intro hkey
    obtain ⟨e, he, rfl⟩ := List.mem_map.mp hkey
    obtain ⟨hea, hsame⟩ := List.mem_filter.mp he
    obtain ⟨o, ho, h⟩ := of_decide_eq_true hsame
    refine List.mem_map.mpr ⟨o, List.mem_filter.mpr ⟨ho, decide_eq_true ⟨e, hea, ?_⟩⟩, h.key⟩
    exact sameButLine_symm (hb o ho) (ha e hea) h
  -- Each side keeps at most one endpoint of a key, so equal sets of keys are equally many.
  have hperm : ((endpoints.filter fun e ↦ ∃ o ∈ others, o.SameButLine e).map Endpoint.key).Perm
      ((others.filter fun o ↦ ∃ e ∈ endpoints, e.SameButLine o).map Endpoint.key) := by
    refine (List.perm_ext_iff_of_nodup (hkeys.sublist (List.filter_sublist.map _))
      (hkeys'.sublist (List.filter_sublist.map _))).mpr fun key ↦ ⟨?_, ?_⟩
    · exact hmem endpoints others hendpoints hothers key
    · exact hmem others endpoints hothers hendpoints key
  have hlength := hperm.length_eq
  rw [List.length_map, List.length_map, ← List.countP_eq_length_filter,
    ← List.countP_eq_length_filter] at hlength
  unfold countCommon
  convert hlength

theorem countAgreeing_map_toJson {endpoints others : List Endpoint}
    (hkeys : (others.map Endpoint.key).Nodup) :
    countAgreeing (others.map Endpoint.toJson) endpoints = countCommon endpoints others := by
  refine List.countP_congr fun e _ ↦ ?_
  simp only [decide_eq_true_eq]
  exact agrees_map_toJson hkeys

theorem countUnchanged_toJson {new old : Catalog} (hkeys : (old.endpoints.map Endpoint.key).Nodup)
    (hnew : ∀ e ∈ new.endpoints, Comparable e.toJson)
    (hold : ∀ e ∈ old.endpoints, Comparable e.toJson) :
    countUnchanged new.endpoints old.toJson = .ok (countCommon new.endpoints old.endpoints) := by
  have hitems : ∀ v ∈ old.endpoints.map Endpoint.toJson, Comparable v := by
    intro v hv
    obtain ⟨e, he, rfl⟩ := List.mem_map.mp hv
    exact hold e he
  rw [Catalog.toJson, countUnchanged_obj rfl, countIn_eq hitems hnew,
    countAgreeing_map_toJson hkeys]
  rfl

/-! ## The count -/

/-- **An endpoint counts when the last earlier entry with its key agrees with it.** Reconciling with
an object that has a list of endpoints does not fail as long as both sides can be written. Entries
that are not objects, the order of entries with different keys, the order of the endpoints and the
lines on either side do not matter; and between two catalogs, each with different keys, both
directions count what they have in common. -/
theorem countUnchanged_eq :
    (∀ (endpoints : List Endpoint) (members : List (Text × Json)) (items : List Json),
      Json.member? "endpoints" members = some (.arr items) →
      (∀ v ∈ items, Comparable v) → (∀ e ∈ endpoints, Comparable e.toJson) →
        countUnchanged endpoints (.obj members) = .ok (countAgreeing items endpoints) ∧
        (∀ members' items', Json.member? "endpoints" members' = some (.arr items') →
          (items'.filter isObject = items.filter isObject ∨
            ((∀ v ∈ items', Comparable v) ∧
              ∀ key, entriesWith key items' = entriesWith key items) ∨
            List.Forall₂ SameButLine items' items) →
          countUnchanged endpoints (.obj members') = countUnchanged endpoints (.obj members)) ∧
        (∀ endpoints' : List Endpoint,
          (endpoints'.Perm endpoints ∨
            List.Forall₂ (fun e' e ↦ ∃ line, e' = { e with line := line }) endpoints' endpoints) →
          countUnchanged endpoints' (.obj members) = countUnchanged endpoints (.obj members))) ∧
    (∀ new old : Catalog,
      (new.endpoints.map Endpoint.key).Nodup → (old.endpoints.map Endpoint.key).Nodup →
      (∀ e ∈ new.endpoints, Comparable e.toJson) → (∀ e ∈ old.endpoints, Comparable e.toJson) →
        countUnchanged new.endpoints old.toJson =
          .ok (countCommon new.endpoints old.endpoints) ∧
        countUnchanged old.endpoints new.toJson =
          .ok (countCommon new.endpoints old.endpoints)) := by
  refine ⟨fun endpoints members items hmember hitems hendpoints ↦ ⟨?_, ?_, ?_⟩, ?_⟩
  · rw [countUnchanged_obj hmember, countIn_eq hitems hendpoints]
    rfl
  · intro members' items' hmember' h
    rw [countUnchanged_obj hmember, countUnchanged_obj hmember']
    rcases h with hobjects | ⟨hitems', horder⟩ | hlines
    · rw [countIn, countIn, ← objects_filter_isObject items', hobjects, objects_filter_isObject]
    · rw [countIn_eq hitems hendpoints, countIn_eq hitems' hendpoints,
        countAgreeing_eq_of_entriesWith horder]
    · rw [countIn, countIn, mapM_entry_objects hlines]
  · intro endpoints' h
    rcases h with hperm | hlines
    · have hendpoints' : ∀ e ∈ endpoints', Comparable e.toJson := fun e he ↦
        hendpoints e (hperm.mem_iff.mp he)
      rw [countUnchanged_obj hmember, countUnchanged_obj hmember, countIn_eq hitems hendpoints,
        countIn_eq hitems hendpoints', countAgreeing, countAgreeing, hperm.countP_eq]
    · exact countUnchanged_eq_of_lines hlines _
  · intro new old hnew hold hnew' hold'
    refine ⟨countUnchanged_toJson hold hnew' hold', ?_⟩
    rw [countUnchanged_toJson hnew hold' hnew', countCommon_comm hnew hold hnew' hold']

private def sample (path : Text) (line : Int) : Endpoint where
  verb := .get
  path := path
  framework := "express"
  sourceFile := "a.js"
  line := some line

/-- Of two endpoints the one that only moved is counted, past a null and an entry without a key. -/
theorem countUnchanged_moved :
    countUnchanged [sample "/a" 1, sample "/b" 2]
        (.obj [("endpoints", .arr [.null, (sample "/a" 7).toJson, .obj [("path", .int 1)]])]) =
      .ok (countAgreeing [.null, (sample "/a" 7).toJson, .obj [("path", .int 1)]]
        [sample "/a" 1, sample "/b" 2]) ∧
    countUnchanged [sample "/a" 1, sample "/b" 2]
        (Catalog.toJson ⟨"r", [sample "/b" 5], [], "t"⟩) =
      .ok (countCommon [sample "/a" 1, sample "/b" 2] [sample "/b" 5]) :=
  ⟨(countUnchanged_eq.1 _ _ _ rfl (by decide) (by decide)).1,
    (countUnchanged_eq.2 ⟨"r", [sample "/a" 1, sample "/b" 2], [], "t"⟩
      ⟨"r", [sample "/b" 5], [], "t"⟩ (by decide) (by decide) (by decide) (by decide)).1⟩

/-- An earlier entry with an integer of more digits than are written ends the comparison. -/
theorem countUnchanged_longInteger :
    Json.Unsplit (.obj [("x", .int Json.leastLong)]) ∧
      Json.depth (.obj [("x", .int Json.leastLong)]) ≤ 200 ∧
      countUnchanged [] (.obj [("endpoints", .arr [.obj [("x", .int Json.leastLong)]])]) =
        .error (.unwritable .longInteger) := by
  have hform : comparisonForm [("x", .int Json.leastLong)] = .error .longInteger :=
    comparisonForm_of_isLong (by decide) Json.isLong_leastLong
  refine ⟨Json.unsplit_obj.mpr ?_, (by decide : 1 ≤ 200), ?_⟩
  · rw [List.forall_mem_singleton]
    exact ⟨by decide, trivial⟩
  · rw [countUnchanged_obj rfl, countIn]
    have hobjects (members : List (Text × Json)) : objects [.obj members] = [members] := rfl
    rw [hobjects, List.mapM_cons, entry, hform]
    rfl

end RouteCatalog.Reconcile
