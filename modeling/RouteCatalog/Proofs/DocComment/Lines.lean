import RouteCatalog.Proofs.DocComment.Body
import RouteCatalog.Proofs.DocComment.Shape
import RouteCatalog.Proofs.Json.Layout

/-!
# Bodies over several lines

Inside a comment each line of a body but the first one is decorated (`decorated`). The decoration is
dropped again, together with the blanks at the ends of the lines and around the whole. A JSON text
that is broken into lines has the breaks between its tokens, so it is still read as its value
(`isReadAs_of_read`).
-/

namespace RouteCatalog

namespace Text

variable {t : Text} {pieces : List Text}

/-! ## Lines -/

theorem lines_join (h : ∀ piece ∈ pieces, CodePoint.ofChar '\n' ∉ piece) (hne : pieces ≠ []) :
    (join "\n" pieces).lines = pieces := by
  rw [lines, splitOn_eq]
  exact List.splitOn_intercalate _ h hne

theorem join_lines (t : Text) : join "\n" t.lines = t := by
  rw [lines, splitOn_eq]
  exact List.intercalate_splitOn _

theorem lines_ne_nil (t : Text) : t.lines ≠ [] := by
  rw [lines, splitOn_eq]
  exact List.splitOn_ne_nil _ _

theorem not_mem_of_mem_lines {line : Text} (h : line ∈ t.lines) : CodePoint.ofChar '\n' ∉ line :=
  not_mem_of_mem_splitOn h

theorem join_cons_of_ne_nil (separator piece : Text) (hne : pieces ≠ []) :
    join separator (piece :: pieces) = piece ++ (separator ++ join separator pieces) := by
  obtain ⟨next, rest, rfl⟩ := List.exists_cons_of_ne_nil hne
  rw [join_cons_cons, List.append_assoc]

theorem join_append_cons (separator x piece : Text) (pieces : List Text) :
    join separator ((x ++ piece) :: pieces) = x ++ join separator (piece :: pieces) := by
  cases pieces with
  | nil => rw [join_singleton, join_singleton]
  | cons next rest => simp only [join_cons_cons, List.append_assoc]

theorem lines_append {x first : Text} {more : List Text} (hx : CodePoint.ofChar '\n' ∉ x)
    (hlines : t.lines = first :: more) : (x ++ t).lines = (x ++ first) :: more := by
  have hline : ∀ line ∈ first :: more, CodePoint.ofChar '\n' ∉ line :=
    fun line hmem ↦ not_mem_of_mem_lines (hlines ▸ hmem)
  obtain ⟨hfirst, hmore⟩ := List.forall_mem_cons.mp hline
  have hjoin : x ++ t = join "\n" ((x ++ first) :: more) := by
    rw [join_append_cons, ← hlines, join_lines]
  rw [hjoin]
  refine lines_join (List.forall_mem_cons.mpr ⟨?_, hmore⟩) (List.cons_ne_nil _ _)
  rw [List.mem_append, not_or]
  exact ⟨hx, hfirst⟩

theorem join_append (separator : Text) {later : List Text} (hne : pieces ≠ [])
    (hlater : later ≠ []) : join separator (pieces ++ later) =
      join separator pieces ++ (separator ++ join separator later) := by
  induction pieces with
  | nil => exact absurd rfl hne
  | cons piece pieces ih =>
    cases pieces with
    | nil => rw [List.singleton_append, join_cons_of_ne_nil _ _ hlater, join_singleton]
    | cons next pieces =>
      rw [List.cons_append, join_cons_of_ne_nil _ _ (List.append_ne_nil_of_right_ne_nil _ hlater),
        join_cons_of_ne_nil _ _ (List.cons_ne_nil next pieces), ih (List.cons_ne_nil next pieces),
        List.append_assoc, List.append_assoc]

theorem join_concat_nil (separator : Text) (hne : pieces ≠ []) :
    join separator (pieces ++ [[]]) = join separator pieces ++ separator := by
  rw [join_append separator hne (List.cons_ne_nil _ _), join_singleton, List.append_nil]

end Text

namespace DocComment

variable {t first last line : Text} {lines more : List Text}

/-! ## Ends of comments -/

/-- No end of a comment is in the text. -/
def EndFree (t : Text) : Prop := ¬ Text.ofString "*/" <:+: t

theorem endFree_iff : EndFree t ↔
    t.IsChain fun a b ↦ ¬ (a = CodePoint.ofChar '*' ∧ b = CodePoint.ofChar '/') := by
  rw [EndFree, List.isChain_iff_forall_rel_of_append_cons_cons]
  constructor
  · rintro h _ _ front back rfl ⟨rfl, rfl⟩
    exact h ⟨front, back, List.append_assoc _ _ _⟩
  · rintro h ⟨front, back, rfl⟩
    exact h (List.append_assoc _ _ _) ⟨rfl, rfl⟩

instance (t : Text) : Decidable (EndFree t) := decidable_of_iff' _ endFree_iff

theorem EndFree.append {s : Text} (hs : EndFree s) (ht : EndFree t)
    (h : s.getLast? ≠ some (CodePoint.ofChar '*') ∨ t.head? ≠ some (CodePoint.ofChar '/')) :
    EndFree (s ++ t) := by
  rw [endFree_iff] at hs ht ⊢
  refine List.isChain_append.mpr ⟨hs, ht, fun a ha b hb hab ↦ ?_⟩
  rcases h with h | h
  · exact h (hab.1 ▸ ha)
  · exact h (hab.2 ▸ hb)

theorem EndFree.of_isInfix {s : Text} (ht : EndFree t) (h : s <:+: t) : EndFree s :=
  fun hs ↦ ht (hs.trans h)

theorem endFree_join (h : ∀ line ∈ lines, EndFree line) : EndFree (Text.join "\n" lines) := by
  induction lines with
  | nil => exact (by decide : EndFree [])
  | cons line lines ih =>
    obtain ⟨hline, hlines⟩ := List.forall_mem_cons.mp h
    cases lines with
    | nil => rwa [Text.join_singleton]
    | cons next lines =>
      rw [Text.join_cons_of_ne_nil _ _ (List.cons_ne_nil next lines)]
      have hbreak : EndFree (Text.ofString "\n") := by decide
      have hhead : (Text.ofString "\n" ++ Text.join "\n" (next :: lines)).head? =
          some (CodePoint.ofChar '\n') := rfl
      exact hline.append (hbreak.append (ih hlines) (.inl (by decide)))
        (.inr (by rw [hhead]; decide))

/-! ## Plain texts -/

/-- A text inside a line of a comment that is no annotation. -/
structure IsPlain (t : Text) : Prop where
  oneLine : CodePoint.ofChar '\n' ∉ t
  /-- It starts no annotation. -/
  atFree : CodePoint.ofChar '@' ∉ t
  /-- It does not end the comment. -/
  endFree : EndFree t

instance (t : Text) : Decidable (IsPlain t) :=
  decidable_of_iff (CodePoint.ofChar '\n' ∉ t ∧ CodePoint.ofChar '@' ∉ t ∧ EndFree t)
    ⟨fun h ↦ ⟨h.1, h.2.1, h.2.2⟩, fun h ↦ ⟨h.oneLine, h.atFree, h.endFree⟩⟩

theorem isPlain_of_mem_lines (hat : CodePoint.ofChar '@' ∉ t) (hend : EndFree t) :
    ∀ line ∈ t.lines, IsPlain line :=
  fun _ hline ↦ ⟨Text.not_mem_of_mem_lines hline, fun hmem ↦ hat (Text.lines_subset hline hmem),
    hend.of_isInfix (Text.isInfix_of_mem_splitOn hline)⟩

/-! ## Decoration -/

/-- A line inside a comment, after an asterisk with blanks around it. -/
def decorate (line : Text) : Text := " * " ++ line

/-- Lines inside a comment. -/
def decorated (lines : List Text) : Text := lines.flatMap fun line ↦ decorate line ++ "\n"

theorem IsPlain.decorate (h : IsPlain line) : IsPlain (decorate line) where
  oneLine hmem := (List.mem_append.mp hmem).elim (absurd · (by decide)) h.oneLine
  atFree hmem := (List.mem_append.mp hmem).elim (absurd · (by decide)) h.atFree
  endFree := by
    have hmark : EndFree (Text.ofString " * ") := by decide
    exact hmark.append h.endFree (.inl (by decide))

theorem undecorated_decorate (line : Text) : undecorated (decorate line) = line := rfl

theorem decorated_append (lines more : List Text) :
    decorated (lines ++ more) = decorated lines ++ decorated more := List.flatMap_append

theorem decorated_cons (line : Text) (lines : List Text) :
    decorated (line :: lines) = decorate line ++ ("\n" ++ decorated lines) := by
  rw [decorated, List.flatMap_cons, List.append_assoc]
  rfl

theorem append_decorated_eq_join (first last : Text) (more : List Text) :
    first ++ ("\n" ++ (decorated more ++ last)) =
      Text.join "\n" (first :: (more.map decorate ++ [last])) := by
  rw [Text.join_cons_of_ne_nil _ _ (List.append_ne_nil_of_right_ne_nil _ (List.cons_ne_nil _ _))]
  induction more generalizing first with
  | nil => rw [List.map_nil, List.nil_append, Text.join_singleton]; rfl
  | cons line more ih =>
    have hline := ih (decorate line)
    rw [List.map_cons, List.cons_append, Text.join_cons_of_ne_nil _ _
      (List.append_ne_nil_of_right_ne_nil _ (List.cons_ne_nil _ _)), ← hline, decorated_cons]
    simp only [List.append_assoc]

theorem undecoratedBody_eq {z : Text} (hundecorated : undecorated first = z)
    (hlast : (undecorated last).trimRight = [])
    (hlines : ∀ line ∈ first :: last :: more, CodePoint.ofChar '\n' ∉ line) :
    undecoratedBody (first ++ ("\n" ++ (decorated more ++ last))) =
      (Text.join "\n" ((z :: more ++ [[]]).map Text.trimRight)).trim := by
  obtain ⟨hfirst, hlines⟩ := List.forall_mem_cons.mp hlines
  obtain ⟨hend, hmore⟩ := List.forall_mem_cons.mp hlines
  have hpieces : ∀ piece ∈ first :: (more.map decorate ++ [last]),
      CodePoint.ofChar '\n' ∉ piece := by
    simp only [List.forall_mem_cons, List.forall_mem_append, List.forall_mem_map,
      List.not_mem_nil, false_implies, implies_true, and_true]
    refine ⟨hfirst, fun line hline hmem ↦ ?_, hend⟩
    rcases List.mem_append.mp hmem with hmem | hmem
    · exact absurd hmem (by decide)
    · exact hmore line hline hmem
  rw [append_decorated_eq_join, undecoratedBody, Text.lines_join hpieces (List.cons_ne_nil _ _)]
  simp only [List.map_cons, List.map_append, List.map_map, Function.comp_def, undecorated_decorate,
    hundecorated, hlast, List.map_nil, List.cons_append]
  rfl

/-! ## JSON texts -/

/-- Blanks at the front and at the ends of lines do not count for JSON, nor does an empty line at
the end. -/
theorem read_trim_join {x z : Text} {v : Json} (hx : ∀ c ∈ x, c.isBlank = true)
    (hread : Json.read (x ++ Text.join "\n" (z :: more)) = .ok v) :
    Json.read (Text.join "\n" ((z :: more ++ [[]]).map Text.trimRight)).trim = .ok v := by
  obtain ⟨tokens, hcuts⟩ := Json.exists_cutsInto_of_read hread
  refine Json.read_of_cutsInto hcuts ?_ hread
  have hlines : Json.Token.CutsInto (Text.join "\n" (z :: more ++ [[]])) tokens := by
    rw [Text.join_concat_nil _ (List.cons_ne_nil z more)]
    exact ((hcuts.dropBlanks hx).append_blank (c := CodePoint.ofChar '\n') (by decide)).1
  have htrimmed := (hlines.trims (Json.Token.trims_join _)).1.trimLeft
  exact (htrimmed.trims (Json.Token.trims_trimRight _)).1

/-- A text that is read as JSON does not consist of blanks, and the first character that is not
blank is no asterisk. -/
theorem exists_cons_of_read {x z : Text} {v : Json} (hx : ∀ c ∈ x, c.isBlank = true)
    (hz : StartsUnblank z) (hread : Json.read (x ++ z) = .ok v) :
    ∃ c t, z = c :: t ∧ c.isBlank = false ∧ c ≠ CodePoint.ofChar '*' := by
  obtain ⟨tokens, hcuts⟩ := Json.exists_cutsInto_of_read hread
  have hz' := hcuts.dropBlanks hx
  have hread' := Json.read_of_cutsInto hcuts hz' hread
  cases z with
  | nil => cases hread'
  | cons c t =>
    refine ⟨c, t, rfl, hz c rfl, ?_⟩
    rintro rfl
    obtain rfl : [Json.Token.stray] = tokens := hz'.map_allFrom 0
    cases hz'.isLast_eq_false .stray List.mem_cons_self

theorem undecorated_of_ne {c : CodePoint} (hc : c.isBlank = false) (hne : c ≠ CodePoint.ofChar '*')
    (t : Text) : undecorated (c :: t) = c :: t := by
  have hstart : Text.trimLeft (c :: t) = c :: t :=
    List.dropWhile_cons_of_neg (by rw [hc]; decide)
  simp only [undecorated, hstart, if_neg hne]

/-- Decorated lines are a body, but for the blanks at the front. -/
theorem isBody_of_decorated {blanks b : Text}
    (hplain : ∀ line ∈ first :: last :: more, IsPlain line)
    (hsplit : first ++ ("\n" ++ (decorated more ++ last)) = blanks ++ b) (hb : StartsUnblank b) :
    IsBody b := by
  have hsuffix : b <:+ first ++ ("\n" ++ (decorated more ++ last)) := ⟨blanks, hsplit.symm⟩
  rw [append_decorated_eq_join] at hsuffix
  have hlines : ∀ line ∈ first :: (more.map decorate ++ [last]), IsPlain line := by
    simp only [List.forall_mem_cons, List.forall_mem_append, List.forall_mem_map, List.not_mem_nil,
      false_implies, implies_true, and_true] at hplain ⊢
    exact ⟨hplain.1, fun line hline ↦ (hplain.2.2 line hline).decorate, hplain.2.1⟩
  refine ⟨hb, fun hmem ↦ ?_, ?_⟩
  · exact Text.not_mem_join (by decide) (fun line hline ↦ (hlines line hline).atFree)
      (hsuffix.subset hmem)
  · exact (endFree_join fun line hline ↦ (hlines line hline).endFree).of_isInfix hsuffix.isInfix

/-- The text between the header of a body and what comes next is read as a JSON value. -/
def IsReadAs (t : Text) (v : Json) : Prop :=
  ∃ blanks b, (∀ c ∈ blanks, c.isBlank = true) ∧ t = blanks ++ b ∧ IsBody b ∧
    Json.read (undecoratedBody b) = .ok v

section Body

variable {v : Json}

/-- When the first line is blank, the body starts at the asterisk of the second one. -/
theorem isReadAs_of_blank (hplain : ∀ line ∈ first :: last :: more, IsPlain line)
    (hlast : (undecorated last).trimRight = []) (hblank : ∀ c ∈ first, c.isBlank = true)
    (hread : Json.read (Text.join "\n" (first :: more)) = .ok v) :
    IsReadAs (first ++ ("\n" ++ (decorated more ++ last))) v := by
  cases more with
  | nil =>
    obtain ⟨c, t, hnil, -⟩ := exists_cons_of_read (x := first) (z := []) hblank
      (fun _ hc ↦ by cases hc) (by rwa [List.append_nil, ← Text.join_singleton "\n" first])
    cases hnil
  | cons next more =>
    have hfront : ∀ c ∈ first ++ "\n", c.isBlank = true :=
      List.forall_mem_append.mpr ⟨hblank, by decide⟩
    have hsplit : first ++ ("\n" ++ (decorated (next :: more) ++ last)) =
        (first ++ "\n ") ++ (("* " ++ next) ++ ("\n" ++ (decorated more ++ last))) := by
      rw [decorated_cons, decorate]
      simp only [List.append_assoc]
      rfl
    refine ⟨first ++ "\n ", _, List.forall_mem_append.mpr ⟨hblank, by decide⟩, hsplit,
      isBody_of_decorated hplain hsplit (by rintro _ ⟨⟩; decide), ?_⟩
    simp only [List.forall_mem_cons] at hplain
    obtain ⟨-, hend, hnext, hmore⟩ := hplain
    rw [undecoratedBody_eq (z := next) rfl hlast]
    · refine read_trim_join hfront ?_
      rwa [List.append_assoc, ← Text.join_cons_of_ne_nil _ _ (List.cons_ne_nil next more)]
    · simp only [List.forall_mem_cons, List.mem_append, not_or]
      exact ⟨⟨by decide, hnext.oneLine⟩, hend.oneLine, fun line hmem ↦ (hmore line hmem).oneLine⟩

/-- Otherwise it starts in the first line, with a character that is no asterisk. -/
theorem isReadAs_of_not_blank (hplain : ∀ line ∈ first :: last :: more, IsPlain line)
    (hlast : (undecorated last).trimRight = []) (hblank : ¬ ∀ c ∈ first, c.isBlank = true)
    (hread : Json.read (Text.join "\n" (first :: more)) = .ok v) :
    IsReadAs (first ++ ("\n" ++ (decorated more ++ last))) v := by
  have hne : first.trimLeft ≠ [] :=
    fun hnil ↦ hblank fun c hc ↦ List.dropWhile_eq_nil_iff.mp hnil c hc
  obtain ⟨c, t, hstart⟩ := List.exists_cons_of_ne_nil hne
  obtain ⟨x, hx, rfl⟩ : ∃ x : Text, (∀ c ∈ x, c.isBlank = true) ∧ first = x ++ c :: t := by
    refine ⟨first.takeWhile CodePoint.isBlank, fun c hc ↦ List.mem_takeWhile_imp hc, ?_⟩
    rw [← hstart]
    exact List.takeWhile_append_dropWhile.symm
  have hc : c.isBlank = false := startsUnblank_trimLeft _ c (by rw [hstart]; rfl)
  rw [Text.join_append_cons] at hread
  have hcons : Text.join "\n" ((c :: t) :: more) = c :: Text.join "\n" (t :: more) :=
    Text.join_append_cons "\n" [c] t more
  obtain ⟨d, s, hd, -, hstar⟩ :=
    exists_cons_of_read hx (by rw [hcons]; rintro _ ⟨⟩; exact hc) hread
  obtain ⟨rfl, -⟩ := List.cons.inj (hcons.symm.trans hd)
  have hsplit : (x ++ c :: t) ++ ("\n" ++ (decorated more ++ last)) =
      x ++ (c :: t ++ ("\n" ++ (decorated more ++ last))) := List.append_assoc _ _ _
  refine ⟨x, _, hx, hsplit, isBody_of_decorated hplain hsplit (by rintro _ ⟨⟩; exact hc), ?_⟩
  simp only [List.forall_mem_cons] at hplain
  obtain ⟨hfirst, hend, hmore⟩ := hplain
  rw [undecoratedBody_eq (undecorated_of_ne hc hstar t) hlast]
  · exact read_trim_join hx hread
  · simp only [List.forall_mem_cons]
    exact ⟨fun hmem ↦ hfirst.oneLine (List.mem_append_right x hmem), hend.oneLine,
      fun line hmem ↦ (hmore line hmem).oneLine⟩

/-- **A JSON text that is broken into lines is read as its value** when it stands as a body between
its header and the decoration before what comes next. -/
theorem isReadAs_of_read {text : Text} (hread : Json.read text = .ok v)
    (hat : CodePoint.ofChar '@' ∉ text) (hend : EndFree text) (hlines : text.lines = first :: more)
    (hlast : last = Text.ofString " " ∨ last = Text.ofString " * ") :
    IsReadAs (first ++ ("\n" ++ (decorated more ++ last))) v := by
  have hjoin : Json.read (Text.join "\n" (first :: more)) = .ok v := by
    rwa [← hlines, Text.join_lines]
  have hline : ∀ line ∈ first :: more, IsPlain line := by
    rw [← hlines]
    exact isPlain_of_mem_lines hat hend
  have hend : IsPlain last ∧ (undecorated last).trimRight = [] := by
    rcases hlast with rfl | rfl <;> decide
  have hplain : ∀ line ∈ first :: last :: more, IsPlain line := by
    simp only [List.forall_mem_cons] at hline ⊢
    exact ⟨hline.1, hend.1, hline.2⟩
  by_cases hblank : ∀ c ∈ first, c.isBlank = true
  · exact isReadAs_of_blank hplain hend.2 hblank hjoin
  · exact isReadAs_of_not_blank hplain hend.2 hblank hjoin

end Body

end DocComment

end RouteCatalog
