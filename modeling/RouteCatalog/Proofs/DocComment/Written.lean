import RouteCatalog.Proofs.DocComment.Lines

/-!
# Written comments

A comment is written line by line: first the lines that describe the endpoint, then the annotations,
in any order. The texts in it hold no at sign and no end of a comment but for the at signs of the
annotations, and the bodies are JSON, broken into lines where JSON has blanks
(`WrittenBlock`). Such a comment says exactly what was written into it (`documentation_text`).
-/

namespace RouteCatalog

namespace Parameter.Kind

/-- The kinds with the words that give them away, in the order in which they are looked for. -/
def groups : List (List Text × Kind) :=
  [(["string"], .string), (["number", "int", "float"], .number), (["boolean", "bool"], .boolean),
    (["array"], .array), (["object"], .object)]

/-- The kind of the first group that has a word inside the type annotation, regardless of case. -/
def ofGroups (type : Text) : Kind :=
  match groups.find? fun (words, _) ↦ words.any fun word ↦ Text.hasInside word type.lower with
  | some (_, kind) => kind
  | none => .unknown

theorem ofTypeText_eq_find? (type : Text) : ofTypeText type =
    ((keywords.find? fun found ↦ Text.hasInside found.1 type.lower).map Prod.snd).getD
      .unknown := by
  rw [ofTypeText]
  cases keywords.find? fun found ↦ Text.hasInside found.1 type.lower <;> rfl

theorem ofTypeText_eq_ofGroups (type : Text) : ofTypeText type = ofGroups type := by
  -- The words of one group after the other are the list of words.
  have hkeywords : keywords = groups.flatMap fun group ↦ group.1.map (·, group.2) := rfl
  have hfind (groups : List (List Text × Kind)) :
      ((groups.flatMap fun group ↦ group.1.map (·, group.2)).find? fun found ↦
          Text.hasInside found.1 type.lower).map Prod.snd =
        (groups.find? fun group ↦ group.1.any fun word ↦
          Text.hasInside word type.lower).map Prod.snd := by
    induction groups with
    | nil => rfl
    | cons group groups ih =>
      rw [List.flatMap_cons, List.find?_append, Option.map_or, ih, List.find?_map, Option.map_map,
        List.find?_cons]
      simp only [Function.comp_def]
      cases hany : group.1.any fun word ↦ Text.hasInside word type.lower with
      | true =>
        have hsome : (group.1.find? fun word ↦ Text.hasInside word type.lower).isSome :=
          List.find?_isSome.mpr (List.any_eq_true.mp hany)
        obtain ⟨word, hword⟩ := Option.isSome_iff_exists.mp hsome
        rw [hword]
        rfl
      | false =>
        have hnone : (group.1.find? fun word ↦ Text.hasInside word type.lower) = none :=
          List.find?_eq_none.mpr (List.any_eq_false.mp hany)
        rw [hnone]
        rfl
  have hkind := hfind groups
  rw [← hkeywords] at hkind
  rw [ofTypeText_eq_find?, hkind, ofGroups]
  cases groups.find? fun group ↦ group.1.any fun word ↦ Text.hasInside word type.lower <;> rfl

end Parameter.Kind

namespace DocComment

/-! ## What is written -/

/-- The annotation of a parameter. -/
structure WrittenParameter where
  type : Text
  name : Text
  /-- What is said about it. -/
  note : Option Text
  type_isPlain : IsPlain type
  type_ne_nil : type ≠ []
  type_closed : CodePoint.ofChar '}' ∉ type
  name_ne_nil : name ≠ []
  name_isNameChar : ∀ c ∈ name, isNameChar c = true
  note_isPlain : ∀ t ∈ note, IsPlain t

/-- The body of an annotation: a JSON text, over one or several lines. -/
structure WrittenBody where
  text : Text
  value : Json
  read_text : Json.read text = .ok value
  atFree : CodePoint.ofChar '@' ∉ text
  endFree : EndFree text

/-- An annotation. -/
inductive WrittenTag
  | parameter (p : WrittenParameter)
  | requestBody (body : WrittenBody)
  /-- A response, with the digits of its status. -/
  | response (a b c : Fin 10) (body : WrittenBody)

/-- A documentation comment: the lines that describe the endpoint, and the annotations. -/
structure WrittenBlock where
  description : List Text
  annotations : List WrittenTag
  description_isPlain : ∀ line ∈ description, IsPlain line

/-! ## How it is written -/

/-- A note, after a blank. -/
def noteText : Option Text → Text
  | some note => " " ++ note
  | none => []

/-- A decimal digit of ASCII. -/
def digit (d : Fin 10) : CodePoint := .ofNat (0x30 + d)

namespace WrittenTag

/-- The text of an annotation, without decoration. -/
def text : WrittenTag → Text
  | .parameter p => "@param \x7b" ++ (p.type ++ ("\x7d " ++ (p.name ++ noteText p.note)))
  | .requestBody body => "@requestBody " ++ body.text
  | .response a b c body =>
    "@responseExample " ++ (digit a :: digit b :: digit c :: (" " ++ body.text))

/-- The lines of an annotation after its first one. -/
def more (a : WrittenTag) : List Text := a.text.lines.tail

end WrittenTag

/-- The text of a comment. -/
def WrittenBlock.text (w : WrittenBlock) : Text :=
  "/**\n" ++ (decorated (w.description ++ w.annotations.flatMap fun a ↦ a.text.lines) ++ " */")

/-! ## What it says -/

namespace WrittenTag

/-- The parameter of an annotation. -/
def parameter? : WrittenTag → Option Parameter
  | .parameter p => some ⟨p.name, .ofGroups p.type, CodePoint.ofChar '=' ∉ p.type⟩
  | _ => none

/-- The schema of the request body. -/
def requestBody? : WrittenTag → Option Json
  | .requestBody body => some body.value
  | _ => none

/-- The response. -/
def response? : WrittenTag → Option Response
  | .response a b c body => some ⟨(100 * a.val + 10 * b.val + c.val : Nat), body.value⟩
  | _ => none

end WrittenTag

/-- The lines that are not blank, without blanks around them and with single ones between them. -/
def joined (lines : List Text) : Option Text :=
  match (lines.map Text.trim).filter (!·.isEmpty) with
  | [] => none
  | kept => some (Text.join " " kept)

/-- What a comment says: its description, every parameter in order, and the first request body and
response. Lines of bodies after the first ones belong to the description, too. -/
def WrittenBlock.documentation (w : WrittenBlock) : Documentation where
  description := joined (w.description ++ w.annotations.flatMap WrittenTag.more)
  parameters := w.annotations.filterMap WrittenTag.parameter?
  requestBody := (w.annotations.findSome? WrittenTag.requestBody?).getD .null
  response := w.annotations.findSome? WrittenTag.response?

/-! ## The entries of a comment -/

/-- The decoration before the next annotation, or before the end of the comment. -/
def gap : List WrittenTag → Text
  | [] => " "
  | _ :: _ => " * "

namespace WrittenTag

/-- The first line of an annotation. -/
def first (a : WrittenTag) : Text := a.text.lines.headD []

/-- An annotation with the decoration of its other lines. -/
def entry (a : WrittenTag) (last : Text) : Text := a.first ++ ("\n" ++ (decorated a.more ++ last))

theorem lines_text (a : WrittenTag) : a.text.lines = a.first :: a.more := by
  obtain ⟨first, more, hlines⟩ := List.exists_cons_of_ne_nil (Text.lines_ne_nil a.text)
  rw [WrittenTag.first, WrittenTag.more, hlines]
  rfl

end WrittenTag

/-- Annotations from the first at sign on, with the end of the comment. -/
def entries : List WrittenTag → Text
  | [] => "*/"
  | a :: rest => a.entry (gap rest) ++ entries rest

theorem decorated_tags (annotations : List WrittenTag) :
    decorated (annotations.flatMap fun a ↦ a.text.lines) ++ " */" =
      gap annotations ++ entries annotations := by
  induction annotations with
  | nil => rfl
  | cons a rest ih =>
    rw [List.flatMap_cons, decorated_append, List.append_assoc, ih, a.lines_text, decorated_cons,
      entries, WrittenTag.entry, gap, decorate]
    simp only [List.append_assoc]

theorem text_eq (w : WrittenBlock) :
    w.text = "/**\n" ++ (decorated w.description ++ gap w.annotations) ++
      entries w.annotations := by
  rw [WrittenBlock.text, decorated_append, List.append_assoc, decorated_tags]
  simp only [List.append_assoc]

/-- What stands in a gap. -/
def IsGap (last : Text) : Prop := last = Text.ofString " " ∨ last = Text.ofString " * "

theorem isGap_gap (annotations : List WrittenTag) : IsGap (gap annotations) := by
  cases annotations with
  | nil => exact .inl rfl
  | cons a rest => exact .inr rfl

section Entries

variable {last rest : Text}

theorem first_more_of_lines {a : WrittenTag} {first : Text} {more : List Text}
    (h : a.text.lines = first :: more) : a.first = first ∧ a.more = more := by
  rw [WrittenTag.first, WrittenTag.more, h]
  exact ⟨rfl, rfl⟩

theorem exists_body_entry {a : WrittenTag} {header : Text} {body : WrittenBody}
    (htext : a.text = header ++ body.text) (hheader : CodePoint.ofChar '\n' ∉ header)
    (hlast : IsGap last) : ∃ t, a.entry last = header ++ t ∧ IsReadAs t body.value := by
  obtain ⟨first, more, hlines⟩ := List.exists_cons_of_ne_nil (Text.lines_ne_nil body.text)
  obtain ⟨hfirst, hmore⟩ := first_more_of_lines (htext ▸ Text.lines_append hheader hlines)
  refine ⟨_, ?_, isReadAs_of_read body.read_text body.atFree body.endFree hlines hlast⟩
  rw [WrittenTag.entry, hfirst, hmore, List.append_assoc]

theorem exists_requestBody_entry (body : WrittenBody) (hlast : IsGap last) :
    ∃ header b, IsRequestHeader header ∧ (WrittenTag.requestBody body).entry last = header ++ b ∧
      IsBody b ∧ Json.read (undecoratedBody b) = .ok body.value := by
  have htext : (WrittenTag.requestBody body).text = "@requestBody " ++ body.text := rfl
  obtain ⟨_, hsplit, blanks, b, hblanks, rfl, hb⟩ := exists_body_entry htext (by decide) hlast
  have hblank : Blanks (Text.ofString " ") := by decide
  exact ⟨_, b, ⟨" " ++ blanks, hblank.append hblanks, rfl⟩, hsplit, hb⟩

theorem digit?_digit : ∀ d : Fin 10, (digit d).digit? = some d.val := by decide

theorem exists_response_entry (a b c : Fin 10) (body : WrittenBody) (hlast : IsGap last) :
    ∃ header text, IsResponseHeader (100 * a.val + 10 * b.val + c.val) header ∧
      (WrittenTag.response a b c body).entry last = header ++ text ∧
        IsBody text ∧ Json.read (undecoratedBody text) = .ok body.value := by
  have hdigit : ∀ d : Fin 10, digit d ≠ CodePoint.ofChar '\n' := by decide
  have htext : (WrittenTag.response a b c body).text =
      "@responseExample " ++ (digit a :: digit b :: digit c :: " ") ++ body.text := rfl
  have hline : CodePoint.ofChar '\n' ∉
      "@responseExample " ++ (digit a :: digit b :: digit c :: Text.ofString " ") := by
    simp only [List.mem_append, List.mem_cons, not_or]
    exact ⟨by decide, (hdigit a).symm, (hdigit b).symm, (hdigit c).symm, by decide⟩
  obtain ⟨_, hsplit, blanks, text, hblanks, rfl, hbody⟩ := exists_body_entry htext hline hlast
  have hblank : Blanks (Text.ofString " ") := by decide
  refine ⟨_, text, ⟨" ", " " ++ blanks, digit a, digit b, digit c, a, b, c, hblank,
    hblank.append hblanks, rfl, digit?_digit a, digit?_digit b, digit?_digit c, rfl⟩, ?_, hbody⟩
  rw [hsplit]
  rfl

theorem mem_noteText {note : Option Text} {c : CodePoint} (h : c ∈ noteText note) :
    c = CodePoint.ofChar ' ' ∨ ∃ t ∈ note, c ∈ t := by
  cases note with
  | none => cases h
  | some t =>
    rcases List.mem_append.mp h with h | h
    · exact .inl (List.mem_singleton.mp h)
    · exact .inr ⟨t, rfl, h⟩

theorem oneLine_parameter (p : WrittenParameter) :
    CodePoint.ofChar '\n' ∉ (WrittenTag.parameter p).text := by
  simp only [WrittenTag.text, List.mem_append, not_or]
  refine ⟨by decide, p.type_isPlain.oneLine, by decide, fun hmem ↦ ?_, fun hmem ↦ ?_⟩
  · exact absurd (p.name_isNameChar _ hmem) (by decide)
  · rcases mem_noteText hmem with heq | ⟨t, ht, hmem⟩
    · exact absurd heq (by decide)
    · exact (p.note_isPlain t ht).oneLine hmem

theorem exists_parameter_entry (p : WrittenParameter) (hlast : IsGap last) :
    ∃ part note, (WrittenTag.parameter p).entry last = part ++ note ∧
      IsParameter (p.type, p.name) part ∧ CodePoint.ofChar '@' ∉ note ∧
        ∀ rest, EndsParameter (p.type, p.name) (note ++ rest) := by
  have hlines : (WrittenTag.parameter p).text.lines = [(WrittenTag.parameter p).text] := by
    have hjoin := Text.lines_join (List.forall_mem_singleton.mpr (oneLine_parameter p))
      (List.cons_ne_nil _ _)
    rwa [Text.join_singleton] at hjoin
  obtain ⟨hfirst, hmore⟩ := first_more_of_lines hlines
  have hblank : Blanks (Text.ofString " ") := by decide
  refine ⟨_, noteText p.note ++ ("\n" ++ last), ?_, ⟨" ", " ", hblank, hblank, rfl, p.type_ne_nil,
    p.type_closed, p.name_isNameChar⟩, ?_, fun rest ↦ ⟨?_, ?_⟩⟩
  · rw [WrittenTag.entry, hfirst, hmore, WrittenTag.text]
    simp only [List.append_assoc]
    rfl
  · simp only [List.mem_append, not_or]
    refine ⟨fun hmem ↦ ?_, by decide, ?_⟩
    · rcases mem_noteText hmem with heq | ⟨t, ht, hmem⟩
      · exact absurd heq (by decide)
      · exact (p.note_isPlain t ht).atFree hmem
    · rcases hlast with rfl | rfl <;> decide
  · intro c hc
    obtain ⟨d, name, hname⟩ := List.exists_cons_of_ne_nil p.name_ne_nil
    dsimp only at hc
    rw [hname] at hc
    cases hc
    exact isBlank_of_isNameChar (p.name_isNameChar _ (hname ▸ List.mem_cons_self))
  · intro c hc
    cases hnote : p.note with
    | none => rw [hnote] at hc; cases hc; decide
    | some t => rw [hnote] at hc; cases hc; decide

theorem atFirstOnly_entry (a : WrittenTag) (hlast : IsGap last) : AtFirstOnly (a.entry last) := by
  cases a with
  | parameter p =>
    obtain ⟨part, note, hsplit, hpart, hnote, -⟩ := exists_parameter_entry p hlast
    rw [hsplit]
    exact (hpart.atFirstOnly p.type_isPlain.atFree).append hnote
  | requestBody body =>
    obtain ⟨header, b, hheader, hsplit, hb, -⟩ := exists_requestBody_entry body hlast
    rw [hsplit]
    exact hheader.atFirstOnly.append hb.atFree
  | response x y z body =>
    obtain ⟨header, b, hheader, hsplit, hb, -⟩ := exists_response_entry x y z body hlast
    rw [hsplit]
    exact hheader.atFirstOnly.append hb.atFree

end Entries

theorem endsBody_entries (annotations : List WrittenTag) : EndsBody (entries annotations) := by
  cases annotations with
  | nil => exact .inr (.inr ⟨[], rfl⟩)
  | cons a rest =>
    obtain ⟨s, hs, -⟩ := atFirstOnly_entry a (isGap_gap rest)
    rw [entries, hs]
    exact .inr (.inl rfl)

/-! ## What is found in the entries -/

/-- What an annotation starts with. -/
def WrittenTag.keyword : WrittenTag → Text
  | .parameter _ => "@param "
  | .requestBody _ => "@requestBody "
  | .response .. => "@responseExample "

theorem exists_first_eq (a : WrittenTag) : ∃ t, a.first = a.keyword ++ t := by
  have hline : CodePoint.ofChar '\n' ∉ a.keyword := by
    have hkeywords : ∀ keyword ∈ (["@param ", "@requestBody ", "@responseExample "] : List Text),
        CodePoint.ofChar '\n' ∉ keyword := by decide
    cases a <;> exact hkeywords _ (by simp [WrittenTag.keyword])
  obtain ⟨t, htext⟩ : ∃ t, a.text = a.keyword ++ t := by
    cases a with
    | parameter p => exact ⟨"\x7b" ++ (p.type ++ ("\x7d " ++ (p.name ++ noteText p.note))), rfl⟩
    | requestBody body => exact ⟨body.text, rfl⟩
    | response x y z body => exact ⟨_, rfl⟩
  obtain ⟨first, more, hlines⟩ := List.exists_cons_of_ne_nil (Text.lines_ne_nil t)
  exact ⟨first, (first_more_of_lines (htext ▸ Text.lines_append hline hlines)).1⟩

theorem exists_entry_eq (a : WrittenTag) (last : Text) : ∃ t, a.entry last = a.keyword ++ t := by
  obtain ⟨t, hfirst⟩ := exists_first_eq a
  exact ⟨_, by rw [WrittenTag.entry, hfirst, List.append_assoc]⟩

section Values

variable {α β : Type} {q : Pattern α}

/-- A pattern that finds in each entry what the annotation holds, if anything, finds in all of them
what they hold. -/
theorem values_entries {view : α → β} {held? : WrittenTag → Option β}
    (hend : q.values (Text.ofString "*/") = [])
    (hentry : ∀ a last rest, IsGap last → EndsBody rest →
      (held? a = none ∧ q.values (a.entry last ++ rest) = q.values rest) ∨
        ∃ v, held? a = some (view v) ∧ q.values (a.entry last ++ rest) = v :: q.values rest)
    (annotations : List WrittenTag) :
    (q.values (entries annotations)).map view = annotations.filterMap held? := by
  induction annotations with
  | nil => rw [entries, hend]; rfl
  | cons a rest ih =>
    rcases hentry a (gap rest) (entries rest) (isGap_gap rest) (endsBody_entries rest) with
      ⟨hnone, hvalues⟩ | ⟨v, hsome, hvalues⟩
    · rw [entries, hvalues, ih, List.filterMap_cons_none hnone]
    · rw [entries, hvalues, List.map_cons, ih, List.filterMap_cons_some hsome]

end Values

theorem values_parameterTag (annotations : List WrittenTag) :
    ((parameterTag.values (entries annotations)).map parameter?) =
      annotations.filterMap fun a ↦ a.parameter?.map some := by
  refine values_entries rfl (fun a last rest hlast hends ↦ ?_) annotations
  have hpass : parameterTag none (a.entry last ++ rest) = none → _ :=
    values_pass (fun _ _ _ ↦ rfl) head?_eq_at_of_parameterTag (atFirstOnly_entry a hlast)
  obtain ⟨t, ht⟩ := exists_entry_eq a last
  cases a with
  | parameter p =>
    obtain ⟨part, note, hsplit, hpart, hnote, hends⟩ := exists_parameter_entry p hlast
    have hfound : parameterTag none (part ++ (note ++ rest)) =
        some ((p.type, p.name), note ++ rest) :=
      parameterTag_eq_some_iff.mpr ⟨part, rfl, hpart, hends rest⟩
    have hne : part ≠ [] := by
      obtain ⟨blanks, blanks', -, -, rfl, -⟩ := hpart
      exact List.cons_ne_nil _ _
    refine .inr ⟨(p.type, p.name), ?_, ?_⟩
    · rw [parameter?, if_neg (mt List.isEmpty_iff.mp p.name_ne_nil),
        Parameter.Kind.ofTypeText_eq_ofGroups, WrittenTag.parameter?, Option.map_some]
      simp only [List.contains_eq_mem, decide_not]
    · rw [hsplit, List.append_assoc, Pattern.values_of_found (fun _ _ _ ↦ rfl) hne hfound,
        Pattern.values_of_declines (fun _ _ _ ↦ rfl)
          (Pattern.declines_of_not_mem head?_eq_at_of_parameterTag hnote _)]
  | requestBody body => exact .inl ⟨rfl, hpass (by rw [ht]; rfl)⟩
  | response x y z body => exact .inl ⟨rfl, hpass (by rw [ht]; rfl)⟩

/-- The request bodies are found in their order, and read as their values. -/
theorem values_requestBodyTag (annotations : List WrittenTag) :
    (requestBodyTag.values (entries annotations)).map (fun b ↦ Json.read (undecoratedBody b)) =
      annotations.filterMap fun a ↦ a.requestBody?.map .ok := by
  refine values_entries rfl (fun a last rest hlast hends ↦ ?_) annotations
  have hpass : requestBodyTag none (a.entry last ++ rest) = none → _ :=
    values_pass isBodyTag_requestBodyTag.anywhere isBodyTag_requestBodyTag.head?_eq_at
      (atFirstOnly_entry a hlast)
  obtain ⟨t, ht⟩ := exists_entry_eq a last
  cases a with
  | parameter p => exact .inl ⟨rfl, hpass (by rw [ht]; rfl)⟩
  | requestBody body =>
    obtain ⟨header, b, hheader, hsplit, hb, hread⟩ := exists_requestBody_entry body hlast
    refine .inr ⟨b, congrArg some hread.symm, ?_⟩
    rw [hsplit, List.append_assoc]
    exact isBodyTag_requestBodyTag.values_append hheader hb hends
  | response x y z body => exact .inl ⟨rfl, hpass (by rw [ht]; rfl)⟩

/-- The responses are found in their order, and their bodies read as their values. -/
theorem values_responseTag (annotations : List WrittenTag) :
    (responseTag.values (entries annotations)).map (fun v ↦
        (Json.read (undecoratedBody v.2)).map fun value ↦ (⟨v.1, value⟩ : Response)) =
      annotations.filterMap fun a ↦ a.response?.map .ok := by
  refine values_entries rfl (fun a last rest hlast hends ↦ ?_) annotations
  have hpass : responseTag none (a.entry last ++ rest) = none → _ :=
    values_pass isBodyTag_responseTag.anywhere isBodyTag_responseTag.head?_eq_at
      (atFirstOnly_entry a hlast)
  obtain ⟨t, ht⟩ := exists_entry_eq a last
  cases a with
  | parameter p => exact .inl ⟨rfl, hpass (by rw [ht]; rfl)⟩
  | requestBody body => exact .inl ⟨rfl, hpass (by rw [ht]; rfl)⟩
  | response x y z body =>
    obtain ⟨header, b, hheader, hsplit, hb, hread⟩ := exists_response_entry x y z body hlast
    refine .inr ⟨(100 * x.val + 10 * y.val + z.val, b), ?_, ?_⟩
    · rw [hread]
      rfl
    · rw [hsplit, List.append_assoc]
      exact isBodyTag_responseTag.values_append (v := (_, b)) hheader hb hends

/-! ## The whole comment -/

theorem atFree_front (w : WrittenBlock) :
    CodePoint.ofChar '@' ∉ "/**\n" ++ (decorated w.description ++ gap w.annotations) := by
  simp only [List.mem_append, not_or]
  refine ⟨by decide, fun hmem ↦ ?_, ?_⟩
  · obtain ⟨line, hline, hmem⟩ := List.mem_flatMap.mp hmem
    simp only [decorate, List.mem_append] at hmem
    rcases hmem with (hmem | hmem) | hmem
    · exact absurd hmem (by decide)
    · exact (w.description_isPlain line hline).atFree hmem
    · exact absurd hmem (by decide)
  · rcases isGap_gap w.annotations with hgap | hgap <;> rw [hgap] <;> decide

theorem values_text {α : Type} {q : Pattern α}
    (hq : ∀ before before' t, q before t = q before' t)
    (hat : ∀ before t v rest, q before t = some (v, rest) → t.head? = some (CodePoint.ofChar '@'))
    (w : WrittenBlock) : q.values w.text = q.values (entries w.annotations) := by
  rw [text_eq, Pattern.values_of_declines hq (Pattern.declines_of_not_mem hat (atFree_front w) _)]

theorem parameters_text (w : WrittenBlock) : parameters w.text = w.documentation.parameters := by
  rw [parameters_eq_values, values_text (fun _ _ _ ↦ rfl) head?_eq_at_of_parameterTag]
  have hvalues := congrArg (List.filterMap id) (values_parameterTag w.annotations)
  rw [List.filterMap_map, List.filterMap_filterMap] at hvalues
  refine hvalues.trans (List.filterMap_congr fun a _ ↦ ?_)
  cases a.parameter? <;> rfl

/-- The first value of a pattern is what the first annotation holds that holds one. -/
theorem first?_text {α β : Type} {q : Pattern α} (hq : ∀ before before' t, q before t = q before' t)
    (hat : ∀ before t v rest, q before t = some (v, rest) → t.head? = some (CodePoint.ofChar '@'))
    {view : α → Except Json.Fault β} {held? : WrittenTag → Option β} {w : WrittenBlock}
    (hvalues : (q.values (entries w.annotations)).map view =
      w.annotations.filterMap fun a ↦ (held? a).map .ok) :
    (q.first? none w.text).map (fun found ↦ view found.1) =
      (w.annotations.findSome? held?).map .ok := by
  have hfirst := congrArg List.head? hvalues
  rw [List.head?_map, List.head?_filterMap, ← values_text hq hat, ← Pattern.first?_eq_values hq,
    Option.map_map] at hfirst
  rw [List.map_findSome?]
  exact hfirst

theorem requestBody_text (w : WrittenBlock) :
    requestBody w.text = .ok w.documentation.requestBody := by
  have hfirst := first?_text isBodyTag_requestBodyTag.anywhere isBodyTag_requestBodyTag.head?_eq_at
    (values_requestBodyTag w.annotations)
  rw [requestBody, WrittenBlock.documentation]
  cases hfound : requestBodyTag.first? none w.text with
  | none =>
    rw [hfound] at hfirst
    rw [Option.map_eq_none_iff.mp hfirst.symm]
    rfl
  | some found =>
    rw [hfound] at hfirst
    obtain ⟨value, hvalue, hread⟩ := Option.map_eq_some_iff.mp hfirst.symm
    dsimp only at hread ⊢
    rw [hvalue, bodyValue, ← hread]
    rfl

theorem response_text (w : WrittenBlock) : response w.text = .ok w.documentation.response := by
  have hfirst := first?_text isBodyTag_responseTag.anywhere isBodyTag_responseTag.head?_eq_at
    (values_responseTag w.annotations)
  rw [response, WrittenBlock.documentation]
  cases hfound : responseTag.first? none w.text with
  | none =>
    rw [hfound] at hfirst
    rw [Option.map_eq_none_iff.mp hfirst.symm]
  | some found =>
    obtain ⟨⟨status, b⟩, rest⟩ := found
    rw [hfound] at hfirst
    obtain ⟨r, hr, hread⟩ := Option.map_eq_some_iff.mp hfirst.symm
    dsimp only at hread ⊢
    rw [hr, bodyValue]
    cases hvalue : Json.read (undecoratedBody b) with
    | error fault => rw [hvalue] at hread; cases hread
    | ok value =>
      rw [hvalue] at hread
      cases hread
      rfl

end DocComment

end RouteCatalog
