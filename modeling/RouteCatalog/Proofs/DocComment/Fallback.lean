import RouteCatalog.DocComment.Tag

/-!
# Bodies that are not JSON

A body that is not JSON is kept as plain text, so a documentation comment says something however
malformed it is (`lenient`). There is one exception, and it is exact: a body that nests too deeply
is a fault of the whole comment (`documentation_of_nestsTooDeeply`), and without one the comment
says what it says leniently (`documentation_of_not_nestsTooDeeply`).
-/

namespace RouteCatalog.DocComment

variable {body block : Text}

/-! ## Single bodies -/

/-- A body is JSON that nests too deeply, as far as it is read. -/
def TooDeep (body : Text) : Prop :=
  ∃ container, Json.read (undecoratedBody body) = .error (.tooDeep container)

/-- The value of a body: its JSON value, or `plain` of the text whatever is wrong with it. -/
def lenientValue (plain : Text → Json) (body : Text) : Json :=
  match Json.read (undecoratedBody body) with
  | .ok value => value
  | .error _ => plain (undecoratedBody body)

theorem bodyValue_of_not_tooDeep (plain : Text → Json) (h : ¬ TooDeep body) :
    bodyValue plain body = .ok (lenientValue plain body) := by
  rw [bodyValue, lenientValue]
  cases hread : Json.read (undecoratedBody body) with
  | ok value => rfl
  | error fault =>
    cases fault with
    | tooDeep container => exact absurd ⟨container, hread⟩ h
    | malformed cause position => rfl
    | tooManyDigits digits => rfl

theorem bodyValue_of_tooDeep (plain : Text → Json) (h : TooDeep body) :
    ∃ container, bodyValue plain body = .error container := by
  obtain ⟨container, hread⟩ := h
  exact ⟨container, by rw [bodyValue, hread]⟩

/-! ## Whole comments -/

/-- The first request body or the first response of a comment nests too deeply. -/
def NestsTooDeeply (block : Text) : Prop :=
  (∃ body rest, requestBodyTag.first? none block = some (body, rest) ∧ TooDeep body) ∨
    ∃ status body rest, responseTag.first? none block = some ((status, body), rest) ∧ TooDeep body

/-- The schema of the request body, with plain text for whatever is not JSON. -/
def lenientRequestBody (block : Text) : Json :=
  match requestBodyTag.first? none block with
  | none => .null
  | some (body, _) => lenientValue (fun text ↦ .obj [("schema", .str text)]) body

/-- The response, with plain text for whatever is not JSON. -/
def lenientResponse (block : Text) : Option Response :=
  (responseTag.first? none block).map fun ((status, body), _) ↦ ⟨status, lenientValue .str body⟩

/-- What a comment says, with plain text for every body that is not JSON. -/
def lenient (block : Text) : Documentation :=
  ⟨description block, parameters block, lenientRequestBody block, lenientResponse block⟩

theorem requestBody_of_not_tooDeep
    (h : ∀ body rest, requestBodyTag.first? none block = some (body, rest) → ¬ TooDeep body) :
    requestBody block = .ok (lenientRequestBody block) := by
  rw [requestBody, lenientRequestBody]
  cases hfirst : requestBodyTag.first? none block with
  | none => rfl
  | some found => exact bodyValue_of_not_tooDeep _ (h found.1 found.2 hfirst)

theorem response_of_not_tooDeep
    (h : ∀ status body rest, responseTag.first? none block = some ((status, body), rest) →
      ¬ TooDeep body) :
    response block = .ok (lenientResponse block) := by
  rw [response, lenientResponse]
  cases hfirst : responseTag.first? none block with
  | none => rfl
  | some found =>
    obtain ⟨⟨status, body⟩, rest⟩ := found
    dsimp only
    rw [bodyValue_of_not_tooDeep _ (h status body rest hfirst)]
    rfl

/-- **A comment without a body that nests too deeply says what it says leniently.** -/
theorem documentation_of_not_nestsTooDeeply (h : ¬ NestsTooDeeply block) :
    documentation block = .ok (lenient block) := by
  obtain ⟨hbody, hresponse⟩ := not_or.mp h
  rw [documentation]
  split
  · next hempty =>
    rw [List.isEmpty_iff.mp hempty]
    rfl
  · rw [requestBody_of_not_tooDeep fun body rest hfirst hdeep ↦ hbody ⟨body, rest, hfirst, hdeep⟩,
      response_of_not_tooDeep fun status body rest hfirst hdeep ↦
        hresponse ⟨status, body, rest, hfirst, hdeep⟩]
    rfl

/-- **A body that nests too deeply is a fault of the whole comment.** -/
theorem documentation_of_nestsTooDeeply (h : NestsTooDeeply block) :
    ∃ container, documentation block = .error container := by
  have hne : ¬ block.isEmpty = true := by
    intro hempty
    rw [List.isEmpty_iff.mp hempty] at h
    rcases h with ⟨_, _, hfirst, -⟩ | ⟨_, _, _, hfirst, -⟩ <;> cases hfirst
  rw [documentation, if_neg hne]
  rcases h with ⟨body, rest, hfirst, hdeep⟩ | ⟨status, body, rest, hfirst, hdeep⟩
  · obtain ⟨container, hvalue⟩ :=
      bodyValue_of_tooDeep (fun text ↦ .obj [("schema", .str text)]) hdeep
    refine ⟨container, ?_⟩
    rw [requestBody, hfirst]
    dsimp only
    rw [hvalue]
    rfl
  · obtain ⟨container, hvalue⟩ := bodyValue_of_tooDeep .str hdeep
    have hresponse : response block = .error container := by
      rw [response, hfirst]
      dsimp only
      rw [hvalue]
      rfl
    -- The request body is read first, and may be the one that fails.
    rw [hresponse]
    cases requestBody block with
    | error first => exact ⟨first, rfl⟩
    | ok value => exact ⟨container, rfl⟩

end RouteCatalog.DocComment
