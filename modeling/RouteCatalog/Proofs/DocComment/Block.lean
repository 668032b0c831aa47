import RouteCatalog.DocComment.Block
import RouteCatalog.Proofs.Text.Truncated

/-!
# Comments of the text before an offset

The comment of a declaration is looked for in the text before it. That text may end inside a
comment, or inside a delimiter. The search in it still finds what one search of the whole text
finds, as far as it ends by then (`DocComment.lastBefore_finds_last_block`): the pattern of comments
looks no further than their ends, and an opening that is never closed hides all that follows it
(`DocComment.block_incremental`).
-/

namespace RouteCatalog

/-! ## Offsets -/

namespace Text

/-- The offset that counts from the front, moved to the nearer end of the text when it lies
outside. -/
def position (t : Text) (offset : Int) : Nat :=
  if 0 ≤ offset then min offset.toNat t.length else (t.length + offset).toNat

variable {t : Text} {offset offset' : Int}

theorem position_le (t : Text) (offset : Int) : t.position offset ≤ t.length := by
  rw [position]
  split <;> omega

theorem upTo_eq_take (t : Text) (offset : Int) : t.upTo offset = t.take (t.position offset) := by
  rw [upTo, position]
  split
  · exact List.take_eq_take_min
  · rfl

theorem position_mono (h : offset ≤ offset') (hend : 0 ≤ offset ↔ 0 ≤ offset') :
    t.position offset ≤ t.position offset' := by
  rw [position, position]
  split <;> split <;> omega

end Text

namespace DocComment

variable {t v rest : Text} {before : Option CodePoint}

/-! ## The pattern -/

theorem block_eq_some_iff : block before t = some (v, rest) ↔
    ∃ after body, t = "/**" ++ after ∧ Text.breakAt? "*/" after = some (body, rest) ∧
      v = "/**" ++ body ++ "*/" := by
  simp only [block, Option.bind_eq_bind, Option.bind_eq_some_iff, Text.dropLiteral?_eq_some_iff,
    Option.pure_def, Option.some.injEq, Prod.exists, Prod.mk.injEq]
  constructor
  · rintro ⟨after, rfl, body, _, hbody, rfl, rfl⟩
    exact ⟨after, body, rfl, hbody, rfl⟩
  · rintro ⟨after, body, rfl, hbody, rfl⟩
    exact ⟨after, rfl, body, rest, hbody, rfl, rfl⟩

theorem eq_append_of_block (h : block before t = some (v, rest)) : t = v ++ rest := by
  obtain ⟨after, body, rfl, hbody, rfl⟩ := block_eq_some_iff.mp h
  rw [Text.eq_append_of_breakAt? hbody]
  simp only [List.append_assoc]

theorem five_le_length_of_block (h : block before t = some (v, rest)) : 5 ≤ v.length := by
  obtain ⟨after, body, -, -, rfl⟩ := block_eq_some_iff.mp h
  have hopening : (Text.ofString "/**").length = 3 := rfl
  have hclosing : (Text.ofString "*/").length = 2 := rfl
  rw [List.length_append, List.length_append, hopening, hclosing]
  omega

/-- Nothing in the text after an opening that is never closed is a comment, nor is the opening. -/
theorem block_eq_none_of_unclosed {after tail : Text} (h : ¬ Text.ofString "*/" <:+: after)
    (htail : tail <:+ "/**" ++ after) (before : Option CodePoint) : block before tail = none := by
  by_contra hsome
  obtain ⟨⟨v, rest⟩, hfound⟩ := Option.ne_none_iff_exists'.mp hsome
  obtain ⟨inside, body, rfl, hbody, -⟩ := block_eq_some_iff.mp hfound
  refine h ?_
  -- What follows the three characters of an opening lies behind the first three of the text.
  have hinside : inside <:+ after := by
    have hlength := htail.length_le
    rw [List.length_append, List.length_append] at hlength
    exact List.suffix_of_suffix_length_le ((List.suffix_append _ inside).trans htail)
      (List.suffix_append _ after) (Nat.le_of_add_le_add_left hlength)
  exact List.IsInfix.trans ⟨body, rest, (Text.eq_append_of_breakAt? hbody).symm⟩ hinside.isInfix

theorem block_incremental : block.Incremental where
  shortens h := by
    have hlength := congrArg List.length (eq_append_of_block h)
    have hlong := five_le_length_of_block h
    rw [List.length_append] at hlength
    omega
  extend more h := by
    obtain ⟨after, body, rfl, hbody, rfl⟩ := block_eq_some_iff.mp h
    exact block_eq_some_iff.mpr
      ⟨after ++ more, body, List.append_assoc _ _ _, Text.breakAt?_append more hbody, rfl⟩
  hides {before t more v rest} hnone h := by
    have hlength := congrArg List.length (eq_append_of_block h)
    have hlong := five_le_length_of_block h
    rw [List.length_append, List.length_append] at hlength
    cases hopened : Text.dropLiteral? "/**" t with
    | none =>
      -- The opening itself is cut.
      obtain ⟨after, body, heq, hbody, -⟩ := block_eq_some_iff.mp h
      have hshort : t.length < 3 :=
        Text.length_lt_of_dropLiteral?_append hopened (Text.dropLiteral?_eq_some_iff.mpr heq)
      refine ⟨by omega, fun tail htail before ↦ ?_⟩
      by_contra hsome
      obtain ⟨⟨v, rest⟩, hfound⟩ := Option.ne_none_iff_exists'.mp hsome
      have htailLength := congrArg List.length (eq_append_of_block hfound)
      have := five_le_length_of_block hfound
      have := htail.length_le
      rw [List.length_append] at htailLength
      omega
    | some after =>
      -- The opening stands in the text, and is not closed there.
      obtain rfl := Text.dropLiteral?_eq_some_iff.mp hopened
      have hunclosed : Text.breakAt? "*/" after = none := by
        by_contra hsome
        obtain ⟨⟨body, rest⟩, hbody⟩ := Option.ne_none_iff_exists'.mp hsome
        rw [block_eq_some_iff.mpr ⟨after, body, rfl, hbody, rfl⟩] at hnone
        cases hnone
      refine ⟨?_, fun tail htail ↦
        block_eq_none_of_unclosed (Text.breakAt?_eq_none_iff.mp hunclosed) htail⟩
      obtain ⟨inside, body, heq, hbody, -⟩ := block_eq_some_iff.mp h
      rw [List.append_assoc, List.append_cancel_left_eq] at heq
      rw [← heq] at hbody
      exact Text.length_lt_of_breakAt?_append hunclosed hbody

/-! ## Comments before an offset -/

/-- The comments of the text before an offset are those of the whole text that end by then, at their
places. -/
theorem occurrences_upTo (content : Text) (offset : Int) :
    block.occurrences (content.upTo offset) =
      (block.occurrences content).filter (·.stop ≤ content.position offset) := by
  have h := block_incremental.occurrences_append (content.take (content.position offset))
    (content.drop (content.position offset))
  rwa [List.take_append_drop, List.length_take, Nat.min_eq_left (Text.position_le content offset),
    ← Text.upTo_eq_take] at h

theorem occurrences_upTo_isPrefix {content : Text} {offset offset' : Int}
    (h : content.position offset ≤ content.position offset') :
    block.occurrences (content.upTo offset) <+: block.occurrences (content.upTo offset') := by
  obtain ⟨more, hmore⟩ := List.take_prefix_take_left (l := content) h
  rw [Text.upTo_eq_take, Text.upTo_eq_take, ← hmore]
  exact block_incremental.occurrences_isPrefix _ more

/-- **The comment of an offset is the last one of the whole text that ends by then.** The comments
of the text before an offset, which may be cut anywhere, are those of one search of the whole text
that end at or before the place of the offset, with the same places and texts. So the last one is
the comment that is found, and there is none where no comment ends by then. Where one place is not
after another, the comments before it are the first of those before the other. Offsets are compared
by their places, since a negative one counts from the end; offsets from the same end are in the
order of their places. -/
theorem lastBefore_finds_last_block (content : Text) (offset : Int) :
    block.occurrences (content.upTo offset) =
        (block.occurrences content).filter (·.stop ≤ content.position offset) ∧
      lastBefore content offset = (((block.occurrences content).filter
        (·.stop ≤ content.position offset)).getLast?).map (·.value) ∧
      ∀ offset', (offset ≤ offset' → (0 ≤ offset ↔ 0 ≤ offset') →
          content.position offset ≤ content.position offset') ∧
        (content.position offset ≤ content.position offset' →
          block.occurrences (content.upTo offset) <+: block.occurrences (content.upTo offset') ∧
            blocks (content.upTo offset) <+: blocks (content.upTo offset')) := by
  refine ⟨occurrences_upTo content offset, ?_, fun offset' ↦ ⟨Text.position_mono, fun h ↦ ?_⟩⟩
  · rw [lastBefore, blocks, List.getLast?_map, occurrences_upTo]
  · have hfront := occurrences_upTo_isPrefix h
    exact ⟨hfront, hfront.map _⟩

/-- The first offset lies inside the second comment, and the other one before the end. -/
theorem lastBefore_finds_last_block_cut :
    let content : Text := "/** a */ get /**/ b */ x"
    lastBefore content 20 = some "/** a */" ∧ lastBefore content (-2) = some "/**/ b */" ∧
      content.position 20 ≤ content.position (-2) ∧
      blocks (content.upTo 20) <+: blocks (content.upTo (-2)) := by
  intro content
  have hplaces : content.position 20 ≤ content.position (-2) := by decide
  have hcut := lastBefore_finds_last_block content 20
  have hend := lastBefore_finds_last_block content (-2)
  exact ⟨hcut.2.1.trans (by decide +kernel), hend.2.1.trans (by decide +kernel), hplaces,
    ((hcut.2.2 (-2)).2 hplaces).2⟩

end DocComment

end RouteCatalog
