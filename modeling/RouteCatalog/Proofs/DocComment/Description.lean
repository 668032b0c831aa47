import RouteCatalog.Proofs.DocComment.ReadBack

/-!
# What is left of annotations in a description

The description of a comment is made line by line, from what each line says without its decoration
(`description_ofLines`). Of an annotation only the line with the tag is left out. The lines over
which a body goes on are part of the description, although the body is read from them, too: a
description is free of the annotations just when those lines are blank
(`AnnotatedBlock.description_forgets_tags`).
-/

namespace RouteCatalog.DocComment

variable {lines more : List Text}

/-! ## Comments line by line -/

/-- What a line says: its text without decoration and without blanks around it. -/
def said (line : Text) : Text := (undecorated line).trim

/-- The line starts with an at sign, but for decoration. -/
def isTagLine (line : Text) : Bool := Text.startsWith "@" (said line)

/-- The comment that is made of lines. -/
def ofLines (lines : List Text) : Text := "/**" ++ (Text.join "\n" lines ++ "*/")

theorem descriptionLines_ofLines (h : ∀ line ∈ lines, CodePoint.ofChar '\n' ∉ line) :
    descriptionLines (ofLines lines) = (lines.map said).filter describes := by
  cases lines with
  | nil => rfl
  | cons line lines =>
    rw [descriptionLines, ofLines, withoutDelimiters_append,
      Text.lines_join h (List.cons_ne_nil line lines)]
    rfl

/-- **The description of a comment** is what its lines say, apart from those that start with an at
sign. -/
theorem description_ofLines (h : ∀ line ∈ lines, CodePoint.ofChar '\n' ∉ line) :
    description (ofLines lines) = joined ((lines.filter (!isTagLine ·)).map undecorated) := by
  refine description_eq_joined ?_
  have hsaid : Text.trim ∘ undecorated = said := rfl
  rw [descriptionLines_ofLines h, List.map_map, hsaid, List.filter_map, List.filter_map,
    List.filter_filter]
  rfl

theorem filter_of_no_tag (h : ∀ line ∈ lines, isTagLine line = false) :
    lines.filter (!isTagLine ·) = lines :=
  List.filter_eq_self.mpr fun line hline ↦ by rw [h line hline]; rfl

theorem joined_append_eq_iff :
    joined (lines ++ more) = joined lines ↔ ∀ line ∈ more, line.trim = [] := by
  have hblank : (more.map Text.trim).filter (!·.isEmpty) = [] ↔ ∀ line ∈ more, line.trim = [] := by
    simp [List.filter_eq_nil_iff]
  rw [← hblank, joined, joined, List.map_append, List.filter_append]
  generalize (lines.map Text.trim).filter (!·.isEmpty) = kept
  generalize (more.map Text.trim).filter (!·.isEmpty) = added
  constructor
  · intro heq
    by_contra hadded
    cases kept with
    | nil =>
      obtain ⟨piece, rest, rfl⟩ := List.exists_cons_of_ne_nil hadded
      cases heq
    | cons piece kept =>
      have hjoin : Text.join " " (piece :: kept ++ added) = Text.join " " (piece :: kept) :=
        Option.some.inj heq
      rw [Text.join_append " " (List.cons_ne_nil piece kept) hadded,
        List.append_right_eq_self] at hjoin
      exact List.append_ne_nil_of_left_ne_nil (by decide) _ hjoin
  · rintro rfl
    rw [List.append_nil]

/-! ## Annotations over several lines -/

/-- An annotation as it stands in a comment, line by line. -/
structure SpreadTag where
  tag : Text
  /-- The lines over which the body goes on. -/
  more : List Text
  isTagLine_tag : isTagLine tag = true
  isTagLine_more : ∀ line ∈ more, isTagLine line = false
  oneLine : ∀ line ∈ tag :: more, CodePoint.ofChar '\n' ∉ line

/-- A comment with annotations, line by line. -/
structure AnnotatedBlock where
  describing : List Text
  annotations : List SpreadTag
  /-- Blank lines before the end. -/
  closing : List Text
  isTagLine_describing : ∀ line ∈ describing, isTagLine line = false
  said_closing : ∀ line ∈ closing, said line = []
  oneLine : ∀ line ∈ describing ++ closing, CodePoint.ofChar '\n' ∉ line

namespace AnnotatedBlock

/-- The lines over which the bodies of annotations go on. -/
def spread (b : AnnotatedBlock) : List Text := b.annotations.flatMap SpreadTag.more

/-- The text of the comment. -/
def text (b : AnnotatedBlock) : Text :=
  ofLines (b.describing ++ (b.annotations.flatMap (fun a ↦ a.tag :: a.more) ++ b.closing))

/-- The comment without the lines with tags. -/
def withoutTags (b : AnnotatedBlock) : Text := ofLines (b.describing ++ (b.spread ++ b.closing))

/-- The comment without the annotations. -/
def withoutAnnotations (b : AnnotatedBlock) : Text := ofLines (b.describing ++ b.closing)

variable (b : AnnotatedBlock)

theorem isTagLine_spread : ∀ line ∈ b.spread, isTagLine line = false :=
  List.forall_mem_flatMap.mpr fun a _ ↦ a.isTagLine_more

theorem isTagLine_closing : ∀ line ∈ b.closing, isTagLine line = false := by
  intro line hline
  rw [isTagLine, b.said_closing line hline]
  rfl

/-- Of the lines between, those that start with an at sign are left out. -/
theorem description_between {lines : List Text} (h : ∀ line ∈ lines, CodePoint.ofChar '\n' ∉ line) :
    description (ofLines (b.describing ++ (lines ++ b.closing))) =
      joined ((b.describing ++ lines.filter (!isTagLine ·)).map undecorated) := by
  have honeLine : ∀ line ∈ b.describing ++ (lines ++ b.closing), CodePoint.ofChar '\n' ∉ line := by
    obtain ⟨hdescribing, hclosing⟩ := List.forall_mem_append.mp b.oneLine
    exact List.forall_mem_append.mpr ⟨hdescribing, List.forall_mem_append.mpr ⟨h, hclosing⟩⟩
  rw [description_ofLines honeLine, List.filter_append, List.filter_append,
    filter_of_no_tag b.isTagLine_describing, filter_of_no_tag b.isTagLine_closing,
    ← List.append_assoc, List.map_append, joined_append_eq_iff, List.forall_mem_map]
  exact b.said_closing

theorem filter_annotations :
    (b.annotations.flatMap fun a ↦ a.tag :: a.more).filter (!isTagLine ·) = b.spread := by
  have htag (a : SpreadTag) : (a.tag :: a.more).filter (!isTagLine ·) = a.more := by
    rw [List.filter_cons_of_neg (by rw [a.isTagLine_tag]; decide),
      filter_of_no_tag a.isTagLine_more]
  rw [List.filter_flatMap]
  exact List.flatMap_congr fun a _ ↦ htag a

theorem description_text :
    description b.text = joined ((b.describing ++ b.spread).map undecorated) := by
  rw [text, b.description_between, filter_annotations]
  exact List.forall_mem_flatMap.mpr fun a _ ↦ a.oneLine

theorem description_withoutTags :
    description b.withoutTags = joined ((b.describing ++ b.spread).map undecorated) := by
  rw [withoutTags, b.description_between, filter_of_no_tag b.isTagLine_spread]
  exact List.forall_mem_flatMap.mpr fun a _ line hline ↦
    a.oneLine line (List.mem_cons_of_mem a.tag hline)

theorem description_withoutAnnotations :
    description b.withoutAnnotations = joined (b.describing.map undecorated) := by
  have hbetween := b.description_between (List.forall_mem_nil _)
  rwa [List.filter_nil, List.append_nil] at hbetween

/-- **Of annotations the lines with tags are left out of the description, the lines over which
bodies go on are not.** A comment is described as without its lines with tags. It is described as
without its annotations just when the other lines of the annotations are blank but for
decoration. -/
theorem description_forgets_tags {d untagged bare : Documentation}
    (h : documentation b.text = .ok d) (huntagged : documentation b.withoutTags = .ok untagged)
    (hbare : documentation b.withoutAnnotations = .ok bare) :
    d.description = untagged.description ∧
      (d.description = bare.description ↔
        ∀ a ∈ b.annotations, ∀ line ∈ a.more, said line = []) := by
  have hlenient {block : Text} {d : Documentation} (h : documentation block = .ok d) :
      d.description = description block := by
    rw [eq_lenient_of_documentation h]
    rfl
  rw [hlenient h, hlenient huntagged, hlenient hbare, b.description_text, b.description_withoutTags,
    b.description_withoutAnnotations]
  refine ⟨rfl, ?_⟩
  rw [List.map_append, joined_append_eq_iff, List.forall_mem_map, spread, List.forall_mem_flatMap]
  rfl

private def usersList : AnnotatedBlock where
  describing := ["", " * List users."]
  annotations := [
    ⟨" * @param \x7bint\x7d page", [], by decide, by decide, by decide⟩,
    ⟨" * @responseExample 200 []", [" *"], by decide, by decide, by decide⟩]
  closing := [" "]
  isTagLine_describing := by decide
  said_closing := by decide
  oneLine := by decide

/-- The body of the response goes on over a line that is blank but for its asterisk. -/
theorem description_forgets_tags_users :
    usersList.text = Text.ofString
      "/**\n * List users.\n * @param \x7bint\x7d page\n * @responseExample 200 []\n *\n */" ∧
      documentation usersList.text = .ok
        ⟨some "List users.", [⟨"page", .number, true⟩], .null, some ⟨200, .arr []⟩⟩ ∧
      documentation usersList.withoutTags = .ok ⟨some "List users.", [], .null, none⟩ ∧
      documentation usersList.withoutAnnotations = .ok ⟨some "List users.", [], .null, none⟩ ∧
      ∀ a ∈ usersList.annotations, ∀ line ∈ a.more, said line = [] := by
  have h : documentation usersList.text = .ok
      ⟨some "List users.", [⟨"page", .number, true⟩], .null, some ⟨200, .arr []⟩⟩ := by rfl
  have huntagged : documentation usersList.withoutTags =
      .ok ⟨some "List users.", [], .null, none⟩ := by rfl
  have hbare : documentation usersList.withoutAnnotations =
      .ok ⟨some "List users.", [], .null, none⟩ := by rfl
  exact ⟨by decide +kernel, h, huntagged, hbare,
    (usersList.description_forgets_tags h huntagged hbare).2.mp rfl⟩

private def userCreation : AnnotatedBlock where
  describing := ["", " * Create user"]
  annotations := [⟨" * @requestBody \x7b", [" *   \"name\": \"string\"", " * \x7d"],
    by decide, by decide, by decide⟩]
  closing := [" "]
  isTagLine_describing := by decide
  said_closing := by decide
  oneLine := by decide

/-- The second and third lines of a request body stand in the description, too. -/
theorem description_keeps_body :
    userCreation.text = Text.ofString
      "/**\n * Create user\n * @requestBody \x7b\n *   \"name\": \"string\"\n * \x7d\n */" ∧
      userCreation.withoutAnnotations = Text.ofString "/**\n * Create user\n */" ∧
      documentation userCreation.text = .ok ⟨some "Create user \"name\": \"string\" \x7d", [],
        .obj [("name", .str "string")], none⟩ ∧
      documentation userCreation.withoutAnnotations =
        .ok ⟨some "Create user", [], .null, none⟩ :=
  ⟨by decide +kernel, by decide +kernel, by rfl, by rfl⟩

end AnnotatedBlock

end RouteCatalog.DocComment
