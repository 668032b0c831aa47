import Mathlib.Data.List.Find
import RouteCatalog.Proofs.DocComment.Indentation

/-!
# Indentation of comments

The indentation of a comment is seen in four places: by the blanks in the headers of annotations, by
the types of parameters, which may go on over several lines, by the bodies, which may end just
before the end of the comment, and by the lines of the description. None of them tells one
indentation from another, so comments that differ in it say the same
(`DocComment.documentation_reindented`).
-/

namespace RouteCatalog

open Text

/-! ## Values of a pattern -/

namespace Pattern

variable {α β : Type} {p : Pattern α}

/-- The values in a text are the first one and those in what follows it. -/
theorem values_eq_first? (hp : ∀ before before' t, p before t = p before' t)
    (hend : ∀ {t v rest}, p none t = some (v, rest) → ∃ x, x ≠ [] ∧ t = x ++ rest) (t : Text) :
    p.values t = match p.first? none t with
      | none => []
      | some (v, rest) => v :: p.values rest := by
  induction t with
  | nil => rfl
  | cons c t ih =>
    rw [first?]
    cases hfound : p none (c :: t) with
    | some found =>
      obtain ⟨v, rest⟩ := found
      obtain ⟨x, hx, heq⟩ := hend hfound
      rw [heq] at hfound ⊢
      exact values_of_found hp hx hfound
    | none =>
      have hpass := values_of_declines hp (x := [c]) (y := t)
        ⟨fun before ↦ (hp before none _).trans hfound, trivial⟩
      rw [first?_congr hp _ none, ← ih]
      exact hpass

end Pattern

namespace DocComment

variable {t t' block block' : Text}

/-! ## Bodies -/

theorem body_cons_of_ne {c : CodePoint} (hat : c ≠ CodePoint.ofChar '@')
    (hstar : c ≠ CodePoint.ofChar '*') (t : Text) : body (c :: t) = c :: body t := by
  rw [body, if_neg]
  simp [hat, hstar]

theorem body_indentation {s : Text} (hs : Indentation s) (t : Text) :
    body (CodePoint.ofChar '\n' :: (s ++ t)) = CodePoint.ofChar '\n' :: (s ++ body t) := by
  rw [body_cons_of_ne (by decide) (by decide)]
  refine congrArg (CodePoint.ofChar '\n' :: ·) ?_
  induction s with
  | nil => rfl
  | cons c s ih =>
    obtain ⟨hc, hs⟩ := List.forall_mem_cons.mp hs
    rw [List.cons_append, body_cons_of_ne, ih hs, List.cons_append]
    · rcases hc with rfl | rfl <;> decide
    · rcases hc with rfl | rfl <;> decide

theorem reindented_body (h : Reindented t t') : Reindented (body t) (body t') := by
  induction h with
  | nil => exact .nil
  | @cons c t t' h ih =>
    rw [body, body, h.head?]
    split
    · exact .nil
    · exact .cons c ih
  | @star s s' t t' hs hs' h ih =>
    -- Where the asterisk ends the comment, the indentation before it ends the body.
    rw [body_indentation hs, body_indentation hs', body, body, h.head?]
    split
    · rw [List.append_nil, List.append_nil]
      exact .last hs hs'
    · exact .star hs hs' ih
  | @last s s' hs hs' =>
    have hbody {s : Text} (hs : Indentation s) :
        body (CodePoint.ofChar '\n' :: s) = CodePoint.ofChar '\n' :: s := by
      have hline := body_indentation hs []
      rwa [body, List.append_nil] at hline
    rw [hbody hs, hbody hs']
    exact .last hs hs'

/-! ## Lines -/

theorem undecorated_star {s : Text} (hs : Indentation s) (t : Text) :
    undecorated (s ++ CodePoint.ofChar '*' :: t) = undecorated (CodePoint.ofChar '*' :: t) := by
  have hstart : StartsUnblank (CodePoint.ofChar '*' :: t) := by
    rintro _ ⟨⟩
    decide
  have htrim : (s ++ CodePoint.ofChar '*' :: t).trimLeft = CodePoint.ofChar '*' :: t :=
    trimLeft_append hs.isBlank hstart
  have htrim' : Text.trimLeft (CodePoint.ofChar '*' :: t) = CodePoint.ofChar '*' :: t :=
    List.dropWhile_cons_of_neg (by decide)
  simp only [undecorated, htrim, htrim', if_true]

theorem trimLeft_of_isBlank {s : Text} (hs : ∀ c ∈ s, c.isBlank = true) : s.trimLeft = [] :=
  List.dropWhile_eq_nil_iff.mpr hs

theorem undecorated_indentation {s : Text} (hs : Indentation s) : undecorated s = s := by
  rw [undecorated, trimLeft_of_isBlank hs.isBlank]

/-- What is made of the lines without decoration does not depend on their indentation, when nothing
is made of blank lines. -/
theorem map_lines_reindented {f : Text → Text}
    (hf : ∀ s, (∀ c ∈ s, c.isBlank = true) → f s = []) (h : Reindented t t') :
    (t'.lines.map fun line ↦ f (undecorated line)) =
      t.lines.map fun line ↦ f (undecorated line) := by
  obtain ⟨first, more, more', hlines, hlines', hmore⟩ := h.exists_lines
  rw [hlines, hlines', List.map_cons, List.map_cons]
  refine congrArg (f (undecorated first) :: ·) ?_
  clear hlines hlines'
  induction hmore with
  | nil => rfl
  | @cons line line' more more' hline _ ih =>
    have hsame : f (undecorated line') = f (undecorated line) := by
      rcases hline with rfl | ⟨s, s', t, hs, hs', rfl, rfl⟩ | ⟨hs, hs'⟩
      · rfl
      · rw [undecorated_star hs, undecorated_star hs']
      · rw [undecorated_indentation hs, undecorated_indentation hs', hf _ hs.isBlank,
          hf _ hs'.isBlank]
    rw [List.map_cons, List.map_cons, hsame, ih]

theorem undecoratedBody_reindented (h : Reindented t t') :
    undecoratedBody t' = undecoratedBody t := by
  rw [undecoratedBody, undecoratedBody,
    map_lines_reindented (f := Text.trimRight) (fun _ ↦ trimRight_of_isBlank) h]

/-! ## Description -/

theorem startsWith_reverse_iff :
    startsWith "/*" t.reverse = true ↔ ∃ x, t = x ++ Text.ofString "*/" := by
  rw [startsWith, Option.isSome_iff_exists]
  simp only [dropLiteral?_eq_some_iff, List.reverse_eq_iff, List.reverse_append]
  constructor
  · rintro ⟨rest, h⟩
    exact ⟨rest.reverse, h⟩
  · rintro ⟨x, h⟩
    exact ⟨x.reverse, by rw [h, List.reverse_reverse]; rfl⟩

theorem withoutDelimiters_reindented (h : Reindented t t') :
    Reindented (withoutDelimiters t) (withoutDelimiters t') := by
  have hopening : Keeps Reindented Reindented (dropLiteral? "/**") :=
    respacing_reindented.keeps_dropLiteral? (by decide)
  have hopened {u u' : Text} (h : Reindented u u') :
      Reindented ((dropLiteral? "/**" u).getD u) ((dropLiteral? "/**" u').getD u') := by
    cases hdrop : dropLiteral? "/**" u with
    | none =>
      rw [hopening.declines Reindented.symm h hdrop]
      exact h
    | some rest =>
      obtain ⟨rest', hrest', hrest⟩ := hopening h hdrop
      rw [hrest']
      exact hrest
  have hclosed {u u' : Text} (h : Reindented u u') :
      Reindented (if startsWith "/*" u.reverse then u.take (u.length - 2) else u)
        (if startsWith "/*" u'.reverse then u'.take (u'.length - 2) else u') := by
    have htake (x : Text) :
        (x ++ Text.ofString "*/").take ((x ++ Text.ofString "*/").length - 2) = x :=
      List.take_left' (by rw [List.length_append]; rfl)
    by_cases hend : startsWith "/*" u.reverse = true
    · obtain ⟨x, rfl⟩ := startsWith_reverse_iff.mp hend
      obtain ⟨x', rfl, hx⟩ := h.exists_of_closed
      rw [if_pos hend, if_pos (startsWith_reverse_iff.mpr ⟨x', rfl⟩), htake, htake]
      exact hx
    · have hend' : ¬ startsWith "/*" u'.reverse = true := fun hend' ↦ by
        obtain ⟨x', rfl⟩ := startsWith_reverse_iff.mp hend'
        obtain ⟨x, rfl, -⟩ := h.symm.exists_of_closed
        exact hend (startsWith_reverse_iff.mpr ⟨x, rfl⟩)
      rw [if_neg hend, if_neg hend']
      exact h
  exact hclosed (hopened h.trim)

theorem description_reindented (h : Reindented block block') :
    description block' = description block := by
  have hlines : descriptionLines block' = descriptionLines block := by
    rw [descriptionLines, descriptionLines, map_lines_reindented (f := Text.trim)
      (fun s hs ↦ by rw [Text.trim, trimLeft_of_isBlank hs]; rfl)
      (withoutDelimiters_reindented h)]
  rw [description, description, hlines]

/-! ## Parameters -/

theorem ofTypeText_reindented (h : Reindented t t') :
    Parameter.Kind.ofTypeText t' = Parameter.Kind.ofTypeText t := by
  have hwords : ∀ keyword ∈ Parameter.Kind.keywords, keyword.1 ≠ [] ∧ StartsUnblank keyword.1 ∧
      CodePoint.ofChar '\n' ∉ keyword.1 := by decide
  have hfind : (Parameter.Kind.keywords.find? fun keyword ↦ hasInside keyword.1 t'.lower) =
      Parameter.Kind.keywords.find? fun keyword ↦ hasInside keyword.1 t.lower := by
    refine List.find?_congr fun keyword hkeyword ↦ ?_
    obtain ⟨hne, hstart, hline⟩ := hwords keyword hkeyword
    exact h.lower.hasInside hne hstart hline
  rw [Parameter.Kind.ofTypeText_eq_find?, Parameter.Kind.ofTypeText_eq_find?, hfind]

/-- The parameter is the same, and what follows differs in indentation. -/
def SameParameter (found found' : (Text × Text) × Text) : Prop :=
  Reindented found.2 found'.2 ∧ parameter? found'.1 = parameter? found.1

theorem keeps_parameterTag : Keeps Reindented SameParameter (parameterTag none) := by
  have hliteral {literal : Text} (h : CodePoint.ofChar '\n' ∉ literal) :=
    respacing_reindented.keeps_dropLiteral? h
  have htyped : Keeps Reindented SameParameter fun t ↦
      let type : Text := t.takeWhile (· ≠ CodePoint.ofChar '}')
      if type.isEmpty then none
      else (dropLiteral? "\x7d" (t.dropWhile (· ≠ CodePoint.ofChar '}'))).bind fun t ↦
        (dropBlanks? t).bind fun t ↦
          some ((type, t.takeWhile isNameChar), t.dropWhile isNameChar) := by
    intro t t' found ht h
    obtain ⟨htype, hafter⟩ :=
      ht.span (p := (decide <| · ≠ CodePoint.ofChar '}')) rfl rfl rfl rfl
    dsimp only at h ⊢
    split at h
    · cases h
    · next hne =>
      rw [if_neg (by rwa [htype.isEmpty])]
      obtain ⟨closed, hclosed, h⟩ := Option.bind_eq_some_iff.mp h
      obtain ⟨started, hstarted, heq⟩ := Option.bind_eq_some_iff.mp h
      cases heq
      obtain ⟨closed', hclosed', hclosed⟩ := hliteral (by decide) hafter hclosed
      obtain ⟨started', hstarted', hstarted⟩ :=
        respacing_reindented.keeps_dropBlanks? hclosed hstarted
      rw [hclosed', Option.bind_some, hstarted']
      obtain ⟨hname, hrest⟩ := hstarted.takeWhile_eq (p := isNameChar) (by decide)
      refine ⟨_, rfl, hrest, ?_⟩
      rw [parameter?, parameter?, hname, ofTypeText_reindented htype,
        htype.contains_eq (by decide) (by decide)]
  exact (hliteral (by decide)).bind (respacing_reindented.keeps_dropBlanks?.bind
    ((hliteral (by decide)).bind htyped))

/-- Annotations are looked for behind blanks, since each starts with an at sign. -/
theorem keeps_first?_annotation {α : Type} {p : Pattern α} {S : α × Text → α × Text → Prop}
    (hany : ∀ before before' t, p before t = p before' t)
    (hat : ∀ before t v rest, p before t = some (v, rest) →
      t.head? = some (CodePoint.ofChar '@'))
    (hkeeps : Keeps Reindented S (p none)) : Keeps Reindented S (p.first? none) := by
  refine respacing_reindented.keeps_first? hany (fun c t hc ↦ ?_) hkeeps
    fun _ _ ht ↦ hkeeps.declines Reindented.symm ht
  by_contra hsome
  obtain ⟨⟨v, rest⟩, hfound⟩ := Option.ne_none_iff_exists'.mp hsome
  cases hat none _ v rest hfound
  exact absurd hc (by decide)

theorem parameters_reindented (h : Reindented block block') :
    parameters block' = parameters block := by
  have hend {t rest : Text} {v : Text × Text} (h : parameterTag none t = some (v, rest)) :
      ∃ x, x ≠ [] ∧ t = x ++ rest := by
    obtain ⟨part, rfl, ⟨_, _, -, -, rfl, -⟩, -⟩ := parameterTag_eq_some_iff.mp h
    exact ⟨_, List.append_ne_nil_of_left_ne_nil (by decide) _, rfl⟩
  have hfirst := keeps_first?_annotation (fun _ _ _ ↦ rfl) head?_eq_at_of_parameterTag
    keeps_parameterTag
  rw [parameters_eq_values, parameters_eq_values]
  -- By induction on the length of the text, from each parameter to what follows it.
  induction hn : block.length using Nat.strongRecOn generalizing block block' with
  | ind n ih =>
    rw [Pattern.values_eq_first? (fun _ _ _ ↦ rfl) hend,
      Pattern.values_eq_first? (fun _ _ _ ↦ rfl) hend block]
    cases hfound : parameterTag.first? none block with
    | none => rw [hfirst.declines Reindented.symm h hfound]
    | some found =>
      obtain ⟨v, rest⟩ := found
      obtain ⟨⟨v', rest'⟩, hfound', hrest, hv⟩ := hfirst h hfound
      have hshort : rest.length < block.length := by
        obtain ⟨tail, htail, before, htag⟩ := Pattern.exists_of_first? hfound
        obtain ⟨x, hx, rfl⟩ := hend htag
        have hle := htail.length_le
        have hpositive := List.length_pos_iff.mpr hx
        rw [List.length_append] at hle
        omega
      rw [hfound']
      dsimp only at hv hrest ⊢
      rw [List.filterMap_cons, List.filterMap_cons, hv, ih rest.length (hn ▸ hshort) hrest rfl]

/-! ## Bodies of annotations -/

/-- The bodies read as the same text. -/
def SameBody (found found' : Text × Text) : Prop :=
  undecoratedBody found'.1 = undecoratedBody found.1

/-- The statuses are the same, and the bodies read as the same text. -/
def SameResponse (found found' : (Nat × Text) × Text) : Prop :=
  found'.1.1 = found.1.1 ∧ undecoratedBody found'.1.2 = undecoratedBody found.1.2

theorem keeps_requestBodyTag : Keeps Reindented SameBody (requestBodyTag none) := by
  have hbody : Keeps Reindented SameBody fun t ↦ some (body t, t.drop (body t).length) := by
    rintro t t' _ ht ⟨⟩
    exact ⟨_, rfl, undecoratedBody_reindented (reindented_body ht)⟩
  exact (respacing_reindented.keeps_dropLiteral? (by decide)).bind
    (respacing_reindented.keeps_dropBlanks?.bind hbody)

theorem keeps_status? : Keeps Reindented (Beside Reindented) status? := by
  rintro t t' ⟨status, rest⟩ ht h
  obtain ⟨a, b, c, x, y, z, rfl, ha, hb, hc, hstatus⟩ := status?_eq_some_iff.mp h
  have hfeed : CodePoint.ofChar '\n' ∉ [a, b, c] := by
    intro hmem
    have hblank : (CodePoint.ofChar '\n').isBlank = true := by decide
    simp only [List.mem_cons, List.not_mem_nil, or_false] at hmem
    rcases hmem with rfl | rfl | rfl
    · exact absurd hblank (by rw [isBlank_of_digit? ha]; decide)
    · exact absurd hblank (by rw [isBlank_of_digit? hb]; decide)
    · exact absurd hblank (by rw [isBlank_of_digit? hc]; decide)
  obtain ⟨s, rfl, hs⟩ := respacing_reindented.append (x := [a, b, c]) hfeed ht
  exact ⟨(status, s), status?_eq_some_iff.mpr ⟨a, b, c, x, y, z, rfl, ha, hb, hc, hstatus⟩, rfl, hs⟩

theorem keeps_responseTag : Keeps Reindented SameResponse (responseTag none) := by
  have hbody (status : Nat) : Keeps Reindented SameResponse fun t ↦
      some ((status, body t), t.drop (body t).length) := by
    rintro t t' _ ht ⟨⟩
    exact ⟨_, rfl, rfl, undecoratedBody_reindented (reindented_body ht)⟩
  exact (respacing_reindented.keeps_dropLiteral? (by decide)).bind
    (respacing_reindented.keeps_dropBlanks?.bind (keeps_status?.bind (.beside fun status ↦
      respacing_reindented.keeps_dropBlanks?.bind (hbody status))))

theorem requestBody_reindented (h : Reindented block block') :
    requestBody block' = requestBody block := by
  have hfirst := keeps_first?_annotation (fun _ _ _ ↦ rfl) isBodyTag_requestBodyTag.head?_eq_at
    keeps_requestBodyTag
  rw [requestBody, requestBody]
  cases hfound : requestBodyTag.first? none block with
  | none => rw [hfirst.declines Reindented.symm h hfound]
  | some found =>
    obtain ⟨⟨b', rest'⟩, hfound', hbody⟩ := hfirst h hfound
    rw [hfound']
    dsimp only
    rw [bodyValue, bodyValue, hbody]

theorem response_reindented (h : Reindented block block') : response block' = response block := by
  have hfirst := keeps_first?_annotation (fun _ _ _ ↦ rfl) isBodyTag_responseTag.head?_eq_at
    keeps_responseTag
  rw [response, response]
  cases hfound : responseTag.first? none block with
  | none => rw [hfirst.declines Reindented.symm h hfound]
  | some found =>
    obtain ⟨⟨status, b⟩, rest⟩ := found
    obtain ⟨⟨⟨_, b'⟩, rest'⟩, hfound', rfl, hbody⟩ := hfirst h hfound
    rw [hfound']
    dsimp only
    rw [bodyValue, bodyValue, hbody]

/-! ## Whole comments -/

/-- **Comments that differ in indentation say the same.** When lines of a comment other than the
first start with spaces and tabs, if any, and an asterisk, other spaces and tabs before the
asterisk, or none, leave the description, the parameters, the request body and the response as they
are, and the fault when a body nests too deeply. -/
theorem documentation_reindented {first : Text} {more more' : List Text}
    (hlines : block.lines = first :: more) (hlines' : block'.lines = first :: more')
    (h : List.Forall₂ (fun line line' ↦ line' = line ∨ StarLine line line') more more') :
    documentation block' = documentation block := by
  have hblock : Reindented block block' := by
    rw [← join_lines block, ← join_lines block', hlines, hlines']
    exact reindented_join first h
  rw [documentation, documentation, hblock.isEmpty, requestBody_reindented hblock,
    response_reindented hblock, description_reindented hblock, parameters_reindented hblock]

private def indentedBlock : Text :=
  "/** A.\n * @param \x7bint\n * =0\x7d n\n   * @requestBody [\n * 1]\n */"

private def flushBlock : Text :=
  "/** A.\n\t* @param \x7bint\n  \t * =0\x7d n\n   * @requestBody [\n* 1]\n*/"

/-- The type of the parameter and the body go on over two lines, and the body ends in the
indentation of the last line. -/
theorem documentation_reindented_flush :
    documentation flushBlock = documentation indentedBlock ∧
      documentation indentedBlock =
        .ok ⟨some "A. =0\x7d n 1]", [⟨"n", .number, false⟩], .arr [.int 1], none⟩ := by
  have hlines : indentedBlock.lines = "/** A." ::
      [" * @param \x7bint", " * =0\x7d n", "   * @requestBody [", " * 1]", " */"] := by
    decide +kernel
  have hlines' : flushBlock.lines = "/** A." ::
      ["\t* @param \x7bint", "  \t * =0\x7d n", "   * @requestBody [", "* 1]", "*/"] := by
    decide +kernel
  refine ⟨documentation_reindented hlines hlines' ?_, by rfl⟩
  have hstar (s s' t : Text) (hs : Indentation s) (hs' : Indentation s') :
      s' ++ CodePoint.ofChar '*' :: t = s ++ CodePoint.ofChar '*' :: t ∨
        StarLine (s ++ CodePoint.ofChar '*' :: t) (s' ++ CodePoint.ofChar '*' :: t) :=
    .inr ⟨s, s', t, hs, hs', rfl, rfl⟩
  exact .cons (hstar " " "\t" " @param \x7bint" (by decide) (by decide))
    (.cons (hstar " " "  \t " " =0\x7d n" (by decide) (by decide)) (.cons (.inl rfl)
      (.cons (hstar " " [] " 1]" (by decide) (by decide))
        (.cons (hstar " " [] "/" (by decide) (by decide)) .nil))))

end DocComment

end RouteCatalog
