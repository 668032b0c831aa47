import RouteCatalog.Proofs.DocComment.Annotation
import RouteCatalog.Proofs.DocComment.Fallback
import RouteCatalog.Proofs.Json.Nesting

/-!
# Bodies degrade alone

A comment whose bodies nest within the limit always says something. Its request body is the body
after the first header of one, and its response the body after the first header of a response
(`FirstBody`); a body that is not JSON is kept as plain text. Putting another text in the place of
one body changes nothing else (`bodies_degrade_alone`): what is found before the at sign of its
header does not depend on it, and nothing else starts in a body.
-/

namespace RouteCatalog

namespace Pattern

variable {α : Type} {p : Pattern α}

theorem declines_iff (hp : ∀ before before' t, p before t = p before' t) {x y : Text} :
    p.Declines x y ↔ ∀ front u, x = front ++ u → u ≠ [] → p none (u ++ y) = none := by
  induction x with
  | nil =>
    refine ⟨fun _ front u hu hne ↦ ?_, fun _ ↦ trivial⟩
    exact absurd (List.append_eq_nil_iff.mp hu.symm).2 hne
  | cons c x ih =>
    rw [Declines, ih]
    constructor
    · rintro ⟨hfirst, hlater⟩ front u hu hne
      rcases List.cons_eq_append_iff.mp hu with ⟨-, rfl⟩ | ⟨front, -, rfl⟩
      · exact hfirst none
      · exact hlater front u rfl hne
    · intro h
      exact ⟨fun before ↦ (hp before none _).trans (h [] (c :: x) rfl (List.cons_ne_nil c x)),
        fun front u hu hne ↦ h (c :: front) u (by rw [hu, List.cons_append]) hne⟩

theorem first?_eq_some_iff (hp : ∀ before before' t, p before t = p before' t) {t rest : Text}
    {v : α} : p.first? none t = some (v, rest) ↔
      ∃ front tail, t = front ++ tail ∧ tail ≠ [] ∧ p.Declines front tail ∧
        p none tail = some (v, rest) := by
  constructor
  · intro h
    induction t with
    | nil => cases h
    | cons c t ih =>
      rw [first?] at h
      split at h
      · next hfound =>
        cases h
        exact ⟨[], c :: t, rfl, List.cons_ne_nil c t, trivial, hfound⟩
      · next hnone =>
        rw [first?_congr hp _ none] at h
        obtain ⟨front, tail, rfl, hne, hfront, hfound⟩ := ih h
        exact ⟨c :: front, tail, rfl, hne, ⟨fun before ↦ (hp before none _).trans hnone, hfront⟩,
          hfound⟩
  · rintro ⟨front, tail, rfl, hne, hfront, hfound⟩
    exact first?_of_found hfront hne (fun before ↦ (hp before none _).trans hfound) none

theorem declines_of_first?_eq_none (hp : ∀ before before' t, p before t = p before' t) {t : Text}
    (h : p.first? none t = none) : p.Declines t [] := by
  induction t with
  | nil => exact trivial
  | cons c t ih =>
    rw [first?] at h
    split at h
    · cases h
    · next hnone =>
      rw [first?_congr hp _ none] at h
      exact ⟨fun before ↦ by rw [List.append_nil, hp before none, hnone], ih h⟩

/-- A pattern that starts with a mark declines in a text without marks. -/
theorem declines_of_not_mem {mark : CodePoint} {x : Text}
    (hmark : ∀ before t v rest, p before t = some (v, rest) → t.head? = some mark)
    (hx : mark ∉ x) (y : Text) : p.Declines x y := by
  induction x with
  | nil => exact trivial
  | cons c x ih =>
    rw [List.mem_cons, not_or] at hx
    refine ⟨fun before ↦ ?_, ih hx.2⟩
    by_contra hsome
    obtain ⟨⟨v, rest⟩, hfound⟩ := Option.ne_none_iff_exists'.mp hsome
    exact hx.1 (Option.some.inj (hmark _ _ _ _ hfound)).symm

end Pattern

namespace DocComment

variable {block before header b b' rest t : Text} {d : Documentation}

/-! ## Annotations with a body -/

/-- A pattern recognises an annotation that consists of a header and a body. -/
structure IsBodyTag {α : Type} (p : Pattern α) (IsHeaderOf : α → Text → Prop) (bodyOf : α → Text) :
    Prop where
  /-- What comes before has no influence. -/
  anywhere : ∀ before before' t, p before t = p before' t
  /-- The header is followed by a body, and what ends it. -/
  eq_some_iff : ∀ {t v rest}, p none t = some (v, rest) ↔ ∃ header, IsHeaderOf v header ∧
    t = header ++ (bodyOf v ++ rest) ∧ IsBody (bodyOf v) ∧ EndsBody rest
  /-- Only the first character of a header is an at sign. -/
  atFirstOnly : ∀ {v header}, IsHeaderOf v header → AtFirstOnly header
  /-- More blanks and any body may follow a header. -/
  withBody : ∀ {v header blanks} (b : Text), IsHeaderOf v header →
    (∀ c ∈ blanks, c.isBlank = true) → ∃ v', IsHeaderOf v' (header ++ blanks) ∧ bodyOf v' = b

theorem Blanks.append {blanks : Text} (ht : Blanks t) (h : ∀ c ∈ blanks, c.isBlank = true) :
    Blanks (t ++ blanks) :=
  ⟨fun hnil ↦ ht.1 (List.append_eq_nil_iff.mp hnil).1,
    fun c hc ↦ (List.mem_append.mp hc).elim (ht.2 c) (h c)⟩

theorem isBodyTag_requestBodyTag : IsBodyTag requestBodyTag (fun _ ↦ IsRequestHeader) id where
  anywhere _ _ _ := rfl
  eq_some_iff := requestBodyTag_eq_some_iff
  atFirstOnly := IsRequestHeader.atFirstOnly
  withBody {v header more} b h hmore := by
    obtain ⟨blanks, hblanks, rfl⟩ := h
    exact ⟨b, ⟨blanks ++ more, hblanks.append hmore, List.append_assoc _ _ _⟩, rfl⟩

theorem isBodyTag_responseTag :
    IsBodyTag responseTag (fun v ↦ IsResponseHeader v.1) Prod.snd where
  anywhere _ _ _ := rfl
  eq_some_iff := responseTag_eq_some_iff
  atFirstOnly := IsResponseHeader.atFirstOnly
  withBody {v header more} b h hmore := by
    obtain ⟨blanks, blanks', x, y, z, k, l, m, hblanks, hblanks', rfl, hdigits⟩ := h
    refine ⟨(v.1, b), ⟨blanks, blanks' ++ more, x, y, z, k, l, m, hblanks,
      hblanks'.append hmore, ?_, hdigits⟩, rfl⟩
    simp only [List.append_assoc, List.cons_append]

theorem exists_body (t : Text) : ∃ blanks b rest, (∀ c ∈ blanks, c.isBlank = true) ∧
    t = blanks ++ (b ++ rest) ∧ IsBody b ∧ EndsBody rest := by
  obtain ⟨hsplit, hbody⟩ := body_eq_iff.mp ⟨startsUnblank_trimLeft t, rfl, rfl⟩
  refine ⟨t.takeWhile CodePoint.isBlank, _, _, fun c hc ↦ List.mem_takeWhile_imp hc, ?_, hbody⟩
  rw [← hsplit]
  exact List.takeWhile_append_dropWhile.symm

namespace IsBodyTag

variable {α : Type} {p : Pattern α} {IsHeaderOf : α → Text → Prop} {bodyOf : α → Text} {v : α}

theorem ne_none_iff (h : IsBodyTag p IsHeaderOf bodyOf) :
    p none t ≠ none ↔ ∃ v header y, IsHeaderOf v header ∧ t = header ++ y := by
  constructor
  · intro hsome
    obtain ⟨⟨v, rest⟩, hfound⟩ := Option.ne_none_iff_exists'.mp hsome
    obtain ⟨header, hheader, hsplit, -⟩ := h.eq_some_iff.mp hfound
    exact ⟨v, header, _, hheader, hsplit⟩
  · rintro ⟨v, header, y, hheader, rfl⟩
    obtain ⟨blanks, b, rest, hblanks, rfl, hbody⟩ := exists_body y
    obtain ⟨v', hheader', rfl⟩ := h.withBody b hheader hblanks
    rw [← List.append_assoc, h.eq_some_iff.mpr ⟨_, hheader', rfl, hbody⟩]
    exact Option.some_ne_none _

theorem head?_eq_at (h : IsBodyTag p IsHeaderOf bodyOf) (before : Option CodePoint) (t : Text)
    (v : α) (rest : Text) (hfound : p before t = some (v, rest)) :
    t.head? = some (CodePoint.ofChar '@') := by
  rw [h.anywhere before none] at hfound
  obtain ⟨header, hheader, rfl, -⟩ := h.eq_some_iff.mp hfound
  obtain ⟨s, rfl, -⟩ := h.atFirstOnly hheader
  rfl

theorem endsBefore (h : IsBodyTag p IsHeaderOf bodyOf) {u : Text} (hu : u ≠ []) :
    p.EndsBefore '@' u := by
  refine Pattern.endsBefore_of_iff
    (fun v part ↦ ∃ header, IsHeaderOf v header ∧ part = header ++ bodyOf v ∧ IsBody (bodyOf v))
    (fun _ ↦ EndsBody) (fun t v rest ↦ ?_) ?_ (fun _ _ _ _ ↦ endsBody_append) hu
  · rw [h.eq_some_iff]
    constructor
    · rintro ⟨header, hheader, rfl, hb, hrest⟩
      exact ⟨_, (List.append_assoc _ _ _).symm, ⟨header, hheader, rfl, hb⟩, hrest⟩
    · rintro ⟨_, rfl, ⟨header, hheader, rfl, hb⟩, hrest⟩
      exact ⟨header, hheader, List.append_assoc _ _ _, hb, hrest⟩
  · rintro v _ rest w - ⟨header, hheader, rfl, hb⟩
    exact (h.atFirstOnly hheader).append hb.atFree

/-- An annotation is found at its header, and the search goes on behind its body. -/
theorem values_append (h : IsBodyTag p IsHeaderOf bodyOf) (hheader : IsHeaderOf v header)
    (hbody : IsBody (bodyOf v)) (hends : EndsBody rest) :
    p.values (header ++ (bodyOf v ++ rest)) = v :: p.values rest := by
  have hfound := h.eq_some_iff.mpr ⟨header, hheader, rfl, hbody, hends⟩
  have hne : header ++ bodyOf v ≠ [] := by
    obtain ⟨s, rfl, -⟩ := h.atFirstOnly hheader
    exact List.cons_ne_nil _ _
  rw [← List.append_assoc] at hfound ⊢
  exact Pattern.values_of_found h.anywhere hne hfound

end IsBodyTag

/-! ## The first body -/

/-- The first header of some kind in a block, its body, and what comes before and after. -/
structure FirstBody (IsHeader : Text → Prop) (block before header b rest : Text) : Prop where
  split : block = before ++ (header ++ (b ++ rest))
  header : IsHeader header
  /-- No header starts earlier. -/
  first : ∀ x h y, block = x ++ (h ++ y) → IsHeader h → before.length ≤ x.length
  /-- The body starts after all blanks, and reaches to the first at sign or end of a comment. -/
  body : IsBody b
  /-- One of them follows the body, or nothing. -/
  ends : EndsBody rest

theorem FirstBody.replace {IsHeader : Text → Prop}
    (h : FirstBody IsHeader block before header b rest) (hb' : IsBody b')
    (hstarts : ∀ h, IsHeader h → AtFirstOnly h) :
    FirstBody IsHeader (before ++ (header ++ (b' ++ rest))) before header b' rest where
  split := rfl
  header := h.header
  first := by
    intro x h' y hsplit hheader
    by_contra hlt
    rw [Nat.not_le] at hlt
    obtain ⟨s, rfl, -⟩ := hstarts header h.header
    obtain ⟨s', rfl, hs'⟩ := hstarts h' hheader
    rcases List.append_eq_append_iff.mp hsplit with ⟨inner, rfl, -⟩ | ⟨u, rfl, hu⟩
    · rw [List.length_append] at hlt
      omega
    · have hne : u ≠ [] := by
        rintro rfl
        rw [List.append_nil] at hlt
        exact Nat.lt_irrefl _ hlt
      -- The header that starts earlier ends earlier, so it is in the block, too.
      obtain ⟨r, rfl, -⟩ := Pattern.exists_of_append_eq hne hs' hu.symm
      have hearlier := h.first x (CodePoint.ofChar '@' :: s')
        (r ++ (CodePoint.ofChar '@' :: s ++ (b ++ rest)))
        (by rw [h.split]; simp only [List.append_assoc]) hheader
      omega
  body := hb'
  ends := h.ends

namespace IsBodyTag

variable {α : Type} {p : Pattern α} {IsHeaderOf : α → Text → Prop} {bodyOf : α → Text} {v : α}

theorem declines_iff (h : IsBodyTag p IsHeaderOf bodyOf) {tail : Text} :
    p.Declines before tail ↔ ∀ x header y, before ++ tail = x ++ (header ++ y) →
      (∃ v, IsHeaderOf v header) → before.length ≤ x.length := by
  rw [Pattern.declines_iff h.anywhere]
  constructor
  · rintro hnone x header y hsplit ⟨v, hheader⟩
    by_contra hlt
    rw [Nat.not_le] at hlt
    rcases List.append_eq_append_iff.mp hsplit with ⟨inner, rfl, -⟩ | ⟨u, rfl, hu⟩
    · rw [List.length_append] at hlt
      omega
    · have hne : u ≠ [] := by
        rintro rfl
        rw [List.append_nil] at hlt
        exact Nat.lt_irrefl _ hlt
      exact h.ne_none_iff.mpr ⟨v, header, y, hheader, hu.symm⟩ (hnone x u rfl hne)
  · intro hfirst front u hu hne
    by_contra hsome
    obtain ⟨v, header, y, hheader, hsplit⟩ := h.ne_none_iff.mp hsome
    have hle := hfirst front header y (by rw [hu, List.append_assoc, hsplit]) ⟨v, hheader⟩
    have hlength := congrArg List.length hu
    rw [List.length_append] at hlength
    have := List.length_pos_iff.mpr hne
    omega

theorem first?_eq_some_iff (h : IsBodyTag p IsHeaderOf bodyOf) :
    p.first? none block = some (v, rest) ↔ ∃ before header, IsHeaderOf v header ∧
      FirstBody (fun header ↦ ∃ v, IsHeaderOf v header) block before header (bodyOf v) rest := by
  rw [Pattern.first?_eq_some_iff h.anywhere]
  constructor
  · rintro ⟨before, tail, rfl, -, hfront, hfound⟩
    obtain ⟨header, hheader, rfl, hbody, hends⟩ := h.eq_some_iff.mp hfound
    exact ⟨before, header, hheader, rfl, ⟨v, hheader⟩, h.declines_iff.mp hfront, hbody, hends⟩
  · rintro ⟨before, header, hheader, hfirst⟩
    refine ⟨before, _, hfirst.split, ?_, h.declines_iff.mpr (hfirst.split ▸ hfirst.first),
      h.eq_some_iff.mpr ⟨header, hheader, rfl, hfirst.body, hfirst.ends⟩⟩
    obtain ⟨s, rfl, -⟩ := h.atFirstOnly hheader
    exact List.cons_ne_nil _ _

theorem first?_eq_none_iff (h : IsBodyTag p IsHeaderOf bodyOf) :
    p.first? none block = none ↔ ∀ v header, IsHeaderOf v header → ¬ header <:+: block := by
  constructor
  · rintro hnone v header hheader ⟨x, y, rfl⟩
    have hdeclines := Pattern.declines_of_first?_eq_none h.anywhere hnone
    have hle := h.declines_iff.mp hdeclines x header y
      (by rw [List.append_nil, List.append_assoc]) ⟨v, hheader⟩
    obtain ⟨s, rfl, -⟩ := h.atFirstOnly hheader
    simp only [List.length_append, List.length_cons] at hle
    omega
  · intro habsent
    by_contra hsome
    obtain ⟨⟨v, rest⟩, hfound⟩ := Option.ne_none_iff_exists'.mp hsome
    obtain ⟨before, header, hheader, hfirst⟩ := h.first?_eq_some_iff.mp hfound
    exact habsent v header hheader ⟨before, _, by rw [hfirst.split, List.append_assoc]⟩

end IsBodyTag

/-! ## Another body in its place -/

theorem head?_eq_at_of_parameterTag (before : Option CodePoint) (t : Text) (v : Text × Text)
    (rest : Text) (h : parameterTag before t = some (v, rest)) :
    t.head? = some (CodePoint.ofChar '@') := by
  obtain ⟨_, rfl, ⟨blanks, blanks', -, -, rfl, -⟩, -⟩ := parameterTag_eq_some_iff.mp h
  rfl

section Other

variable {β : Type} {q : Pattern β} (hq : ∀ before before' t, q before t = q before' t)
  (hat : ∀ before t v rest, q before t = some (v, rest) → t.head? = some (CodePoint.ofChar '@'))
include hq hat

theorem values_pass (ht : AtFirstOnly t) (hother : q none (t ++ rest) = none) :
    q.values (t ++ rest) = q.values rest := by
  obtain ⟨s, rfl, hs⟩ := ht
  exact Pattern.values_of_declines hq
    ⟨fun before ↦ (hq before none _).trans hother, Pattern.declines_of_not_mem hat hs rest⟩

/-- **What a pattern of other annotations finds does not depend on a body.** -/
theorem values_replace (hbefore : ∀ u, u <:+ before → u ≠ [] → q.EndsBefore '@' u)
    (hheader : AtFirstOnly header) (hother : ∀ y, q none (header ++ y) = none) (hb : IsBody b)
    (hb' : IsBody b') : q.values (before ++ (header ++ (b' ++ rest))) =
      q.values (before ++ (header ++ (b ++ rest))) := by
  have hpass {b : Text} (hb : IsBody b) : q.values (header ++ (b ++ rest)) = q.values rest := by
    have hother' := hother (b ++ rest)
    rw [← List.append_assoc] at hother' ⊢
    exact values_pass hq hat (hheader.append hb.atFree) hother'
  have hpassed' := hpass hb'
  have hpassed := hpass hb
  obtain ⟨s, rfl, -⟩ := hheader
  obtain ⟨found, h', h⟩ := Pattern.exists_values_append hq hbefore (s ++ (b' ++ rest))
    (s ++ (b ++ rest))
  rw [List.cons_append] at hpassed hpassed' ⊢
  rw [h', hpassed', List.cons_append, h, hpassed]

end Other

/-- The value of a body, as its text is JSON or not. -/
structure HoldsBody (plain : Text → Json) (b : Text) (value : Json) : Prop where
  /-- It is the JSON value of the text without decoration. -/
  json : ∀ v, Json.read (undecoratedBody b) = .ok v → value = v
  /-- Otherwise it is that text. -/
  text : (∀ v, Json.read (undecoratedBody b) ≠ .ok v) → value = plain (undecoratedBody b)

theorem holdsBody_lenientValue (plain : Text → Json) (b : Text) :
    HoldsBody plain b (lenientValue plain b) where
  json v h := by rw [lenientValue, h]
  text h := by
    rw [lenientValue]
    split
    · next v hread => exact absurd hread (h v)
    · rfl

theorem not_tooDeep_of_nesting {n : Nat} (hn : n < Json.maxDepth)
    (h : Json.nesting (undecoratedBody b) ≤ n) : ¬ TooDeep b := by
  rintro ⟨container, hread⟩
  exact Json.read_of_nesting_lt (Nat.lt_of_le_of_lt h hn) container hread

theorem nestsTooDeeply_iff : NestsTooDeeply block ↔
    (∃ b ∈ (requestBodyTag.values block).head?, TooDeep b) ∨
      ∃ v ∈ (responseTag.values block).head?, TooDeep v.2 := by
  rw [NestsTooDeeply, ← Pattern.first?_eq_values fun _ _ _ ↦ rfl,
    ← Pattern.first?_eq_values fun _ _ _ ↦ rfl]
  simp only [Option.mem_def, Option.map_eq_some_iff, Prod.exists, exists_and_right,
    exists_eq_right]

theorem eq_lenient_of_documentation (h : documentation block = .ok d) : d = lenient block := by
  by_cases hdeep : NestsTooDeeply block
  · obtain ⟨container, herror⟩ := documentation_of_nestsTooDeeply hdeep
    rw [herror] at h
    cases h
  · rw [documentation_of_not_nestsTooDeeply hdeep] at h
    exact (Except.ok.inj h).symm

theorem parameters_eq_values (block : Text) :
    parameters block = (parameterTag.values block).filterMap parameter? := by
  rw [parameters, Pattern.values, List.filterMap_map]
  rfl

theorem lenientRequestBody_eq_values (block : Text) : lenientRequestBody block =
    match (requestBodyTag.values block).head? with
    | none => .null
    | some b => lenientValue (fun text ↦ .obj [("schema", .str text)]) b := by
  rw [lenientRequestBody, ← Pattern.first?_eq_values fun _ _ _ ↦ rfl]
  cases requestBodyTag.first? none block <;> rfl

theorem lenientResponse_eq_values (block : Text) : lenientResponse block =
    (responseTag.values block).head?.map fun (status, b) ↦ ⟨status, lenientValue .str b⟩ := by
  rw [lenientResponse, ← Pattern.first?_eq_values fun _ _ _ ↦ rfl, Option.map_map]
  rfl

/-! ## Whole comments -/

/-- The header of a response with any status. -/
def IsAnyResponseHeader (header : Text) : Prop := ∃ status, IsResponseHeader status header

theorem IsAnyResponseHeader.atFirstOnly (h : IsAnyResponseHeader header) : AtFirstOnly header := by
  obtain ⟨status, h⟩ := h
  exact h.atFirstOnly

/-- **The request body is the first one.** -/
theorem first?_requestBodyTag_iff : requestBodyTag.first? none block = some (b, rest) ↔
    ∃ before header, FirstBody IsRequestHeader block before header b rest := by
  have h : requestBodyTag.first? none block = some (b, rest) ↔ _ :=
    isBodyTag_requestBodyTag.first?_eq_some_iff
  simp only [exists_const, id_eq] at h
  rw [h]
  exact exists₂_congr fun before header ↦ and_iff_right_of_imp FirstBody.header

/-- **The response is the first one.** -/
theorem first?_responseTag_iff {status : Nat} :
    responseTag.first? none block = some ((status, b), rest) ↔ ∃ before header,
      IsResponseHeader status header ∧
        FirstBody IsAnyResponseHeader block before header b rest := by
  have h : responseTag.first? none block = some ((status, b), rest) ↔ _ :=
    isBodyTag_responseTag.first?_eq_some_iff
  simp only [Prod.exists, exists_const] at h
  exact h

/-- The request body and the response of a block nest at most so deep. -/
structure BodiesNestWithin (n : Nat) (block : Text) : Prop where
  request : ∀ before header b rest, FirstBody IsRequestHeader block before header b rest →
    Json.nesting (undecoratedBody b) ≤ n
  response : ∀ before header b rest, FirstBody IsAnyResponseHeader block before header b rest →
    Json.nesting (undecoratedBody b) ≤ n

theorem bodiesNestWithin_iff {n : Nat} : BodiesNestWithin n block ↔
    (∀ found ∈ requestBodyTag.first? none block, Json.nesting (undecoratedBody found.1) ≤ n) ∧
      ∀ found ∈ responseTag.first? none block, Json.nesting (undecoratedBody found.1.2) ≤ n := by
  constructor
  · intro h
    refine ⟨fun found hfound ↦ ?_, fun found hfound ↦ ?_⟩
    · obtain ⟨before, header, hfirst⟩ := first?_requestBodyTag_iff.mp hfound
      exact h.request _ _ _ _ hfirst
    · obtain ⟨before, header, -, hfirst⟩ := first?_responseTag_iff.mp hfound
      exact h.response _ _ _ _ hfirst
  · rintro ⟨hrequest, hresponse⟩
    refine ⟨fun before header b rest hfirst ↦ ?_, fun before header b rest hfirst ↦ ?_⟩
    · exact hrequest _ (first?_requestBodyTag_iff.mpr ⟨before, header, hfirst⟩)
    · obtain ⟨status, hstatus⟩ := hfirst.header
      exact hresponse _ (first?_responseTag_iff.mpr ⟨before, header, hstatus, hfirst⟩)

instance (n : Nat) (block : Text) : Decidable (BodiesNestWithin n block) :=
  decidable_of_iff' _ bodiesNestWithin_iff

theorem BodiesNestWithin.not_tooDeep {n : Nat} (h : BodiesNestWithin n block)
    (hn : n < Json.maxDepth) : (∀ b ∈ (requestBodyTag.values block).head?, ¬ TooDeep b) ∧
      ∀ v ∈ (responseTag.values block).head?, ¬ TooDeep v.2 := by
  obtain ⟨hrequest, hresponse⟩ := bodiesNestWithin_iff.mp h
  rw [← Pattern.first?_eq_values fun _ _ _ ↦ rfl, ← Pattern.first?_eq_values fun _ _ _ ↦ rfl]
  constructor
  · intro b hb
    obtain ⟨found, hfirst, rfl⟩ := Option.map_eq_some_iff.mp hb
    exact not_tooDeep_of_nesting hn (hrequest found hfirst)
  · intro v hv
    obtain ⟨found, hfirst, rfl⟩ := Option.map_eq_some_iff.mp hv
    exact not_tooDeep_of_nesting hn (hresponse found hfirst)

theorem documentation_eq_lenient (hrequest : ∀ b ∈ (requestBodyTag.values block).head?, ¬ TooDeep b)
    (hresponse : ∀ v ∈ (responseTag.values block).head?, ¬ TooDeep v.2) :
    documentation block = .ok (lenient block) := by
  refine documentation_of_not_nestsTooDeeply fun hdeep ↦ ?_
  rcases nestsTooDeeply_iff.mp hdeep with ⟨b, hb, hdeep⟩ | ⟨v, hv, hdeep⟩
  · exact hrequest b hb hdeep
  · exact hresponse v hv hdeep

/-- Parameters are as before when a body is replaced, where their types are closed. -/
theorem parameters_replace (hclosed : ClosesTypes (before ++ (header ++ (b ++ rest))))
    (hheader : AtFirstOnly header) (hother : ∀ y, parameterTag none (header ++ y) = none)
    (hb : IsBody b) (hb' : IsBody b') :
    parameters (before ++ (header ++ (b' ++ rest))) =
      parameters (before ++ (header ++ (b ++ rest))) := by
  rw [parameters_eq_values, parameters_eq_values, values_replace (fun _ _ _ ↦ rfl)
    head?_eq_at_of_parameterTag (fun u hu hne ↦ ?_) hheader hother hb hb']
  obtain ⟨x, rfl⟩ := hu
  obtain ⟨s, rfl, -⟩ := hheader
  rw [List.append_assoc] at hclosed
  exact parameterTag_endsBefore hclosed hne

/-- What a block says with some body after a header: it says something unless that body nests too
deeply, and then what it says has the property. -/
def SaysWith (before header b rest : Text) (P : Documentation → Prop) : Prop :=
  (Json.nesting (undecoratedBody b) ≤ 200 →
      ∃ d, documentation (before ++ (header ++ (b ++ rest))) = .ok d) ∧
    ∀ d, documentation (before ++ (header ++ (b ++ rest))) = .ok d → P d

theorem saysWith_requestBody (hnest : BodiesNestWithin 200 block)
    (hfirst : FirstBody IsRequestHeader block before header b rest) (hb' : IsBody b') :
    SaysWith before header b' rest fun d ↦ d.response = lenientResponse block ∧
      (ClosesTypes block → d.parameters = parameters block) := by
  have hresponses : responseTag.values (before ++ (header ++ (b' ++ rest))) =
      responseTag.values block := by
    rw [hfirst.split]
    refine values_replace (fun _ _ _ ↦ rfl) isBodyTag_responseTag.head?_eq_at
      (fun u _ hu ↦ isBodyTag_responseTag.endsBefore hu) hfirst.header.atFirstOnly ?_ hfirst.body
      hb'
    obtain ⟨blanks, -, rfl⟩ := hfirst.header
    exact fun y ↦ rfl
  have hrequests := first?_requestBodyTag_iff.mpr
    ⟨_, _, hfirst.replace hb' fun _ ↦ IsRequestHeader.atFirstOnly⟩
  constructor
  · intro hshallow
    refine ⟨_, documentation_eq_lenient (fun b₁ hb₁ ↦ ?_) ?_⟩
    · rw [← Pattern.first?_eq_values fun _ _ _ ↦ rfl, hrequests] at hb₁
      cases hb₁
      exact not_tooDeep_of_nesting (by decide) hshallow
    · rw [hresponses]
      exact (hnest.not_tooDeep (by decide)).2
  · rintro d hd
    obtain rfl := eq_lenient_of_documentation hd
    refine ⟨?_, fun hclosed ↦ ?_⟩
    · rw [lenient, lenientResponse_eq_values, hresponses, ← lenientResponse_eq_values]
    · rw [hfirst.split] at hclosed ⊢
      obtain ⟨blanks, -, rfl⟩ := id hfirst.header
      exact parameters_replace hclosed hfirst.header.atFirstOnly (fun y ↦ rfl) hfirst.body hb'

theorem saysWith_response {status : Nat} (hnest : BodiesNestWithin 200 block)
    (hfirst : FirstBody IsAnyResponseHeader block before header b rest)
    (hstatus : IsResponseHeader status header) (hb' : IsBody b') :
    SaysWith before header b' rest fun d ↦ d.requestBody = lenientRequestBody block ∧
      d.response.map Response.status = some (status : Int) ∧
      (ClosesTypes block → d.parameters = parameters block) := by
  have hrequests : requestBodyTag.values (before ++ (header ++ (b' ++ rest))) =
      requestBodyTag.values block := by
    rw [hfirst.split]
    refine values_replace (fun _ _ _ ↦ rfl) isBodyTag_requestBodyTag.head?_eq_at
      (fun u _ hu ↦ isBodyTag_requestBodyTag.endsBefore hu) hstatus.atFirstOnly ?_ hfirst.body hb'
    obtain ⟨blanks, blanks', x, y, z, k, l, m, -, -, rfl, -⟩ := hstatus
    exact fun y ↦ rfl
  have hresponses := first?_responseTag_iff.mpr
    ⟨_, _, hstatus, hfirst.replace hb' fun _ ↦ IsAnyResponseHeader.atFirstOnly⟩
  constructor
  · intro hshallow
    refine ⟨_, documentation_eq_lenient ?_ fun v hv ↦ ?_⟩
    · rw [hrequests]
      exact (hnest.not_tooDeep (by decide)).1
    · rw [← Pattern.first?_eq_values fun _ _ _ ↦ rfl, hresponses] at hv
      cases hv
      exact not_tooDeep_of_nesting (by decide) hshallow
  · rintro d hd
    obtain rfl := eq_lenient_of_documentation hd
    refine ⟨?_, ?_, fun hclosed ↦ ?_⟩
    · rw [lenient, lenientRequestBody_eq_values, hrequests, ← lenientRequestBody_eq_values]
    · rw [lenient, lenientResponse, hresponses]
      rfl
    · rw [hfirst.split] at hclosed ⊢
      obtain ⟨blanks, blanks', x, y, z, k, l, m, -, -, rfl, -⟩ := id hstatus
      exact parameters_replace hclosed hstatus.atFirstOnly (fun y ↦ rfl) hfirst.body hb'

/-- **Bodies degrade alone.** A block whose bodies nest at most 200 levels deep always says
something. Its request body is the first one, if there is any: the JSON value of its text or, when
that is not JSON, an object of it; and so is its response, with the value of the three digits.
Whatever other text stands in the place of the request body, the response is the same; whatever
stands in the place of the response, the request body and the status are. In both cases the
parameters are the same, where each type that a parameter opens is closed before the next at
sign. -/
theorem bodies_degrade_alone (hnest : BodiesNestWithin 200 block) :
    ∃ d, documentation block = .ok d ∧
      (((∀ header, IsRequestHeader header → ¬ header <:+: block) ∧ d.requestBody = .null) ∨
        ∃ before header b rest, FirstBody IsRequestHeader block before header b rest ∧
          HoldsBody (fun text ↦ .obj [("schema", .str text)]) b d.requestBody ∧
          ∀ b', IsBody b' → SaysWith before header b' rest fun d' ↦
            d'.response = d.response ∧ (ClosesTypes block → d'.parameters = d.parameters)) ∧
      (((∀ status header, IsResponseHeader status header → ¬ header <:+: block) ∧
          d.response = none) ∨
        ∃ before header b rest status value,
          FirstBody IsAnyResponseHeader block before header b rest ∧
          IsResponseHeader status header ∧ d.response = some ⟨status, value⟩ ∧
          HoldsBody .str b value ∧
          ∀ b', IsBody b' → SaysWith before header b' rest fun d' ↦
            d'.requestBody = d.requestBody ∧
              d'.response.map Response.status = some (status : Int) ∧
              (ClosesTypes block → d'.parameters = d.parameters)) := by
  obtain ⟨hrequest, hresponse⟩ := hnest.not_tooDeep (by decide)
  refine ⟨lenient block, documentation_eq_lenient hrequest hresponse, ?_, ?_⟩
  · cases hfound : requestBodyTag.first? none block with
    | none =>
      have habsent := isBodyTag_requestBodyTag.first?_eq_none_iff.mp hfound
      exact .inl ⟨habsent [], by rw [lenient, lenientRequestBody, hfound]⟩
    | some found =>
      obtain ⟨b, rest⟩ := found
      obtain ⟨before, header, hfirst⟩ := first?_requestBodyTag_iff.mp hfound
      refine .inr ⟨before, header, b, rest, hfirst, ?_, fun b' ↦ saysWith_requestBody hnest hfirst⟩
      rw [lenient, lenientRequestBody, hfound]
      exact holdsBody_lenientValue _ b
  · cases hfound : responseTag.first? none block with
    | none =>
      have habsent := isBodyTag_responseTag.first?_eq_none_iff.mp hfound
      exact .inl ⟨fun status ↦ habsent (status, []), by rw [lenient, lenientResponse, hfound]; rfl⟩
    | some found =>
      obtain ⟨⟨status, b⟩, rest⟩ := found
      obtain ⟨before, header, hstatus, hfirst⟩ := first?_responseTag_iff.mp hfound
      refine .inr ⟨before, header, b, rest, status, lenientValue .str b, hfirst, hstatus, ?_,
        holdsBody_lenientValue _ b, fun b' ↦ saysWith_response hnest hfirst hstatus⟩
      rw [lenient, lenientResponse, hfound]
      rfl

/-- The first body is broken off by the next annotation; with another one in its place the response
is the same. -/
theorem bodies_degrade_alone_broken :
    let block : Text := "/** @requestBody [1 @responseExample 404 [2] */"
    BodiesNestWithin 200 block ∧ ∃ d, documentation block = .ok d ∧
      d.requestBody = .obj [("schema", .str "[1")] ∧ d.response = some ⟨404, .arr [.int 2]⟩ ∧
      ∃ d', documentation "/** @requestBody [1] @responseExample 404 [2] */" = .ok d' ∧
        d'.response = d.response ∧ d'.parameters = d.parameters := by
  intro block
  have hnest : BodiesNestWithin 200 block := by decide +kernel
  have hbody : requestBodyTag.first? none block =
      some (Text.ofString "[1 ", Text.ofString "@responseExample 404 [2] */") := by decide +kernel
  have hexample : responseTag.first? none block =
      some ((404, Text.ofString "[2] "), Text.ofString "*/") := by decide +kernel
  obtain ⟨d, hd, hrequest, hresponse⟩ := bodies_degrade_alone hnest
  refine ⟨hnest, d, hd, ?_⟩
  rw [and_left_comm]
  constructor
  · rcases hresponse with ⟨habsent, -⟩ |
      ⟨before, header, b, rest, status, value, hfirst, hstatus, hvalue, hholds, -⟩
    · have hnone := isBodyTag_responseTag.first?_eq_none_iff.mpr fun v ↦ habsent v.1
      rw [hexample] at hnone
      cases hnone
    · have hfound := first?_responseTag_iff.mpr ⟨before, header, hstatus, hfirst⟩
      rw [hexample] at hfound
      cases hfound
      rw [hvalue, hholds.json (.arr [.int 2]) rfl]
      rfl
  · rcases hrequest with ⟨habsent, -⟩ | ⟨before, header, b, rest, hfirst, hholds, hsays⟩
    · have hnone := isBodyTag_requestBodyTag.first?_eq_none_iff.mpr fun _ ↦ habsent
      rw [hbody] at hnone
      cases hnone
    · have hfound := first?_requestBodyTag_iff.mpr ⟨before, header, hfirst⟩
      rw [hbody] at hfound
      cases hfound
      refine ⟨hholds.text (fun v hread ↦ by cases hread), ?_⟩
      have hsplit : before ++ header ++ Text.ofString "[1 @responseExample 404 [2] */" =
          Text.ofString "/** @requestBody " ++ Text.ofString "[1 @responseExample 404 [2] */" :=
        (List.append_assoc _ _ _).trans hfirst.split.symm
      have hfront := List.append_cancel_right hsplit
      have hblock : Text.ofString "/** @requestBody [1] @responseExample 404 [2] */" =
          before ++ (header ++ ("[1] " ++ Text.ofString "@responseExample 404 [2] */")) := by
        rw [← List.append_assoc, hfront]
        rfl
      have hclosed : ClosesTypes block := fun x blanks y hsplit _ ↦ by
        have hnone : ¬ Text.ofString "@param" <:+: block := by decide +kernel
        exact absurd ⟨x, blanks ++ ("\x7b" ++ y), (List.append_assoc _ _ _).trans hsplit.symm⟩ hnone
      obtain ⟨hreturns, hsame⟩ :=
        hsays "[1] " ⟨by rintro _ ⟨⟩; decide, by decide, by decide⟩
      obtain ⟨d', hd'⟩ := hreturns (by decide +kernel)
      obtain ⟨hresponse, hparameters⟩ := hsame d' hd'
      exact ⟨d', hblock ▸ hd', hresponse, hparameters hclosed⟩

end DocComment

end RouteCatalog
