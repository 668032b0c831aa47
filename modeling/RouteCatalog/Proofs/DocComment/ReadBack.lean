import RouteCatalog.Proofs.DocComment.Written

/-!
# Written comments are read back

A comment says exactly what was written into it (`documentation_text`). Its annotations are found
one after the other; what is left to show is that its description consists of the lines that start
no annotation, since every first line of an annotation starts with the at sign.
-/

namespace RouteCatalog

namespace Text

variable {t : Text} {c : CodePoint} {pieces : List Text}

/-! ## Trimmed texts -/

theorem trimRight_cons_of_unblank (hc : c.isBlank = false) (t : Text) :
    trimRight (c :: t) = c :: trimRight t := by
  rw [trimRight]
  split
  · next hnil => rw [hc, hnil]; rfl
  · rfl

theorem trimRight_of_last (h : ∀ c, t.getLast? = some c → c.isBlank = false) : t.trimRight = t := by
  induction t with
  | nil => rfl
  | cons c t ih =>
    cases t with
    | nil => exact trimRight_cons_of_unblank (h c rfl) []
    | cons d t =>
      have htail := ih fun e he ↦ h e (by rwa [List.getLast?_cons_cons])
      rw [trimRight, htail]

theorem Trimmed.trim_eq (h : t.Trimmed) : t.trim = t := by
  have hleft : t.trimLeft = t := by
    cases t with
    | nil => rfl
    | cons c t => exact List.dropWhile_cons_of_neg (by rw [h.head c rfl]; decide)
  rw [trim, hleft, trimRight_of_last h.last]

theorem trimmed_append {s : Text} (hs : s ≠ []) (ht : t ≠ [])
    (hhead : ∀ c, s.head? = some c → c.isBlank = false)
    (hlast : ∀ c, t.getLast? = some c → c.isBlank = false) : (s ++ t).Trimmed where
  head c hc := by
    obtain ⟨d, s, rfl⟩ := List.exists_cons_of_ne_nil hs
    exact hhead c hc
  last c hc := by
    rw [List.getLast?_append, List.getLast?_eq_some_getLast ht] at hc
    exact hlast c (by rw [List.getLast?_eq_some_getLast ht]; exact hc)

theorem trimmed_join (h : ∀ piece ∈ pieces, piece ≠ [] ∧ piece.Trimmed) (hne : pieces ≠ []) :
    join " " pieces ≠ [] ∧ (join " " pieces).Trimmed := by
  induction pieces with
  | nil => exact absurd rfl hne
  | cons piece pieces ih =>
    obtain ⟨⟨hpiece, htrimmed⟩, hpieces⟩ := List.forall_mem_cons.mp h
    cases pieces with
    | nil => rw [join_singleton]; exact ⟨hpiece, htrimmed⟩
    | cons next pieces =>
      obtain ⟨hrest, hrestTrimmed⟩ := ih hpieces (List.cons_ne_nil next pieces)
      rw [join_cons_of_ne_nil _ _ (List.cons_ne_nil next pieces), ← List.append_assoc]
      exact ⟨List.append_ne_nil_of_right_ne_nil _ hrest,
        trimmed_append (List.append_ne_nil_of_left_ne_nil hpiece _) hrest
          (fun c hc ↦ htrimmed.head c (by
            obtain ⟨d, piece, rfl⟩ := List.exists_cons_of_ne_nil hpiece
            exact hc)) hrestTrimmed.last⟩

end Text

namespace DocComment

variable {t : Text} {lines : List Text}

/-! ## Delimiters -/

theorem withoutDelimiters_append (t : Text) :
    withoutDelimiters ("/**" ++ (t ++ "*/")) = t := by
  have htrim : Text.trim ("/**" ++ (t ++ "*/")) = "/**" ++ (t ++ "*/") := by
    refine (Text.trimmed_append (by decide) (List.append_ne_nil_of_right_ne_nil _ (by decide))
      (by decide) fun c hc ↦ ?_).trim_eq
    rw [List.getLast?_append] at hc
    cases hc
    decide
  have hdrop : Text.dropLiteral? "/**" ("/**" ++ (t ++ "*/")) = some (t ++ "*/") :=
    Text.dropLiteral?_eq_some_iff.mpr rfl
  have hend : Text.startsWith "/*" (t ++ "*/").reverse = true := by
    rw [List.reverse_append]
    rfl
  rw [withoutDelimiters, htrim, hdrop]
  dsimp only [Option.getD_some]
  rw [if_pos hend]
  exact List.take_left' (by rw [List.length_append]; rfl)

/-! ## Lines that describe -/

/-- A line that describes the endpoint: it is not blank and starts no annotation. -/
def describes (line : Text) : Bool := !line.isEmpty && !Text.startsWith "@" line

theorem startsWith_at_iff (t : Text) :
    Text.startsWith "@" t = decide (t.head? = some (CodePoint.ofChar '@')) := by
  cases t with
  | nil => rfl
  | cons c t =>
    have hliteral : Text.ofString "@" = [CodePoint.ofChar '@'] := rfl
    rw [Text.startsWith, hliteral, Text.dropLiteral?]
    by_cases hc : CodePoint.ofChar '@' = c
    · rw [if_pos hc, hc]
      simp [Text.dropLiteral?]
    · rw [if_neg hc]
      simp [Ne.symm hc]

/-- Lines without at signs describe the endpoint, unless they are blank. -/
theorem filter_describes (h : ∀ line ∈ lines, CodePoint.ofChar '@' ∉ line) :
    (lines.map Text.trim).filter describes = (lines.map Text.trim).filter (!·.isEmpty) := by
  refine List.filter_congr fun line hline ↦ ?_
  obtain ⟨whole, hwhole, rfl⟩ := List.mem_map.mp hline
  have hat : Text.startsWith "@" whole.trim = false := by
    rw [startsWith_at_iff]
    exact decide_eq_false fun hhead ↦
      h whole hwhole (Text.trim_subset whole (List.mem_of_mem_head? hhead))
  rw [describes, hat, Bool.not_false, Bool.and_true]

/-- The first line of an annotation does not describe the endpoint, the others do. -/
theorem filter_describes_tag (a : WrittenTag) :
    (a.text.lines.map Text.trim).filter describes =
      (a.more.map Text.trim).filter (!·.isEmpty) := by
  obtain ⟨s, hentry, hs⟩ := atFirstOnly_entry a (.inl rfl : IsGap " ")
  obtain ⟨t, hfirst⟩ : ∃ t, a.first = CodePoint.ofChar '@' :: t := by
    obtain ⟨t, hfirst⟩ := exists_first_eq a
    cases a <;> exact ⟨_, hfirst⟩
  have hmore : ∀ line ∈ a.more, CodePoint.ofChar '@' ∉ line := by
    intro line hline hmem
    rw [WrittenTag.entry, hfirst, List.cons_append] at hentry
    obtain ⟨-, rfl⟩ := List.cons.inj hentry
    refine hs (List.mem_append_right t (List.mem_append_right _ (List.mem_append_left _ ?_)))
    exact List.mem_flatMap.mpr ⟨line, hline, List.mem_append_left _ (List.mem_append_right _ hmem)⟩
  have hnot : ¬ describes a.first.trim = true := by
    have hleft : Text.trimLeft (CodePoint.ofChar '@' :: t) = CodePoint.ofChar '@' :: t :=
      List.dropWhile_cons_of_neg (by decide)
    rw [hfirst, Text.trim, hleft, Text.trimRight_cons_of_unblank (by decide), describes,
      startsWith_at_iff]
    simp
  rw [a.lines_text, List.map_cons, List.filter_cons_of_neg hnot, filter_describes hmore]

theorem lines_decorated (h : ∀ line ∈ lines, CodePoint.ofChar '\n' ∉ line) :
    ((Text.ofString "\n" ++ (decorated lines ++ Text.ofString " ")).lines.map fun line ↦
      (undecorated line).trim) = [] :: (lines.map Text.trim ++ [[]]) := by
  have hjoin := append_decorated_eq_join [] (Text.ofString " ") lines
  rw [List.nil_append] at hjoin
  rw [hjoin, Text.lines_join ?_ (List.cons_ne_nil _ _)]
  · simp only [List.map_cons, List.map_append, List.map_map, Function.comp_def,
      undecorated_decorate, List.map_nil]
    rfl
  · simp only [List.forall_mem_cons, List.forall_mem_append, List.forall_mem_map, List.not_mem_nil,
      false_implies, implies_true, and_true]
    refine ⟨not_false, fun line hline hmem ↦ ?_, by decide⟩
    rcases List.mem_append.mp hmem with hmem | hmem
    · exact absurd hmem (by decide)
    · exact h line hline hmem

theorem descriptionLines_text (w : WrittenBlock) : descriptionLines w.text =
    ((w.description ++ w.annotations.flatMap WrittenTag.more).map Text.trim).filter
      (!·.isEmpty) := by
  have hlines : ∀ line ∈ w.description ++ w.annotations.flatMap fun a ↦ a.text.lines,
      CodePoint.ofChar '\n' ∉ line := by
    simp only [List.forall_mem_append, List.forall_mem_flatMap]
    exact ⟨fun line hline ↦ (w.description_isPlain line hline).oneLine,
      fun a _ line hline ↦ Text.not_mem_of_mem_lines hline⟩
  have hsplit : w.text = "/**" ++ (Text.ofString "\n" ++ (decorated (w.description ++
      w.annotations.flatMap fun a ↦ a.text.lines) ++ Text.ofString " ") ++ "*/") := by
    simp only [WrittenBlock.text, List.append_assoc]
    rfl
  have hfilter : descriptionLines w.text =
      ((w.description ++ w.annotations.flatMap fun a ↦ a.text.lines).map Text.trim).filter
        describes := by
    rw [descriptionLines, hsplit, withoutDelimiters_append, lines_decorated hlines]
    exact (List.filter_append (p := describes) _ _).trans (List.append_nil _)
  rw [hfilter, List.map_append, List.map_append, List.filter_append, List.filter_append,
    filter_describes fun line hline ↦ (w.description_isPlain line hline).atFree,
    List.map_flatMap, List.map_flatMap, List.filter_flatMap, List.filter_flatMap]
  exact congrArg _ (List.flatMap_congr fun a _ ↦ filter_describes_tag a)

/-- The describing lines have no blanks at their ends and are not empty, so that nothing is trimmed
once they are joined. -/
theorem description_eq_joined {block : Text}
    (h : descriptionLines block = (lines.map Text.trim).filter (!·.isEmpty)) :
    description block = joined lines := by
  rw [description, h, joined]
  have hkept : ∀ line ∈ (lines.map Text.trim).filter (!·.isEmpty), line ≠ [] ∧ line.Trimmed := by
    intro line hline
    obtain ⟨hmem, hne⟩ := List.mem_filter.mp hline
    obtain ⟨whole, -, rfl⟩ := List.mem_map.mp hmem
    exact ⟨by simpa using hne, Text.trimmed_trim whole⟩
  generalize (lines.map Text.trim).filter (!·.isEmpty) = kept at hkept ⊢
  cases kept with
  | nil => rfl
  | cons line kept =>
    obtain ⟨hne, htrimmed⟩ := Text.trimmed_join hkept (List.cons_ne_nil line kept)
    rw [htrimmed.trim_eq]
    split
    · next hnil => exact absurd hnil hne
    · rfl

theorem description_text (w : WrittenBlock) :
    description w.text = w.documentation.description :=
  description_eq_joined (descriptionLines_text w)

/-- **A written comment says exactly what was written into it.** Its parameters are those of its
annotations, in order and with duplicates; each has the kind of the first group with a word in its
type, and has to be given unless its type has an equals sign. Its request body is the value of the
first one, null without any, and its response the first one, with its status. Its description
consists of the lines that describe it and of those of its bodies after the first ones; where no
body goes over several lines, of the former alone. -/
theorem documentation_text (w : WrittenBlock) :
    documentation w.text = .ok w.documentation ∧
      ((∀ a ∈ w.annotations, CodePoint.ofChar '\n' ∉ a.text) →
        w.documentation.description = joined w.description) := by
  constructor
  · have hne : ¬ w.text.isEmpty = true := Bool.false_ne_true
    rw [documentation, if_neg hne, requestBody_text, response_text, description_text,
      parameters_text]
    rfl
  · intro hline
    have hmore : w.annotations.flatMap WrittenTag.more = [] := by
      rw [List.flatMap_eq_nil_iff]
      intro a ha
      have hjoin := Text.lines_join (List.forall_mem_singleton.mpr (hline a ha))
        (List.cons_ne_nil _ _)
      rw [Text.join_singleton] at hjoin
      exact (first_more_of_lines hjoin).2
    rw [WrittenBlock.documentation, hmore, List.append_nil]

/-- A comment with a parameter and a response. -/
def usersBlock (body : WrittenBody) : WrittenBlock where
  description := ["List users."]
  annotations :=
    [.parameter ⟨"Integer=", "page", some "the first", by decide, by decide, by decide, by decide,
      by decide +kernel, by decide⟩, .response 2 0 0 body]
  description_isPlain := by decide

/-- The second line of a response belongs to the description, too; a response in one line leaves the
description as it is. -/
theorem documentation_text_users :
    documentation ("/**\n * List users.\n * @param \x7bInteger=\x7d page the first\n" ++
      " * @responseExample 200 [1,\n *   2]\n */") =
        .ok ⟨some "List users. 2]", [⟨"page", .number, false⟩], .null,
          some ⟨200, .arr [.int 1, .int 2]⟩⟩ ∧
      (usersBlock ⟨"[1, 2]", .arr [.int 1, .int 2], rfl, by decide,
        by decide⟩).documentation.description = some "List users." :=
  ⟨(documentation_text (usersBlock ⟨"[1,\n  2]", .arr [.int 1, .int 2], rfl, by decide,
      by decide⟩)).1,
    (documentation_text (usersBlock ⟨"[1, 2]", .arr [.int 1, .int 2], rfl, by decide,
      by decide⟩)).2 (by decide)⟩

end DocComment

end RouteCatalog
