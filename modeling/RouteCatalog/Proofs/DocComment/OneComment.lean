import Mathlib.Data.List.Infix
import RouteCatalog.Proofs.DocComment.Block

/-!
# What is found as a documentation comment

A documentation comment opens with a slash and two asterisks. The second asterisk may itself be part
of a closing: the shortest comment, a slash, two asterisks and a slash, is opened and closed by
four characters and documents nothing. The pattern of documentation comments takes the first three
of them for an opening and goes on to the next closing, through whatever code lies in between.

This is the only way in which more than one comment is found. What is found has no closing after the
first three characters but the one at its end (`Found.first`), so it is one comment unless it starts
with the shortest one (`lastBefore_isOneComment_iff`).
-/

namespace RouteCatalog

namespace Text

variable {literal t before rest : Text} {j : Nat}

theorem length_le_of_breakAt? (h : breakAt? literal t = some (before, rest))
    (hj : literal <+: t.drop j) : before.length ≤ j := by
  induction t generalizing before rest j with
  | nil =>
    obtain ⟨_, _, heq⟩ := Option.map_eq_some_iff.mp h
    obtain ⟨rfl, -⟩ := Prod.mk.inj heq
    exact Nat.zero_le j
  | cons c t ih =>
    rw [breakAt?] at h
    split at h
    · obtain ⟨rfl, -⟩ := Prod.mk.inj (Option.some.inj h)
      exact Nat.zero_le j
    · next hnone =>
      obtain ⟨⟨b, r⟩, hb, heq⟩ := Option.map_eq_some_iff.mp h
      obtain ⟨rfl, -⟩ := Prod.mk.inj heq
      cases j with
      | zero =>
        obtain ⟨after, hafter⟩ := hj
        rw [List.drop_zero] at hafter
        rw [dropLiteral?_eq_some_iff.mpr hafter.symm] at hnone
        cases hnone
      | succ j => exact Nat.succ_le_succ (ih hb hj)

end Text

namespace DocComment

variable {content v : Text} {offset : Int}

/-- A text is one comment: it opens with a slash and an asterisk, and the first closing after them
ends it. -/
structure IsOneComment (v : Text) : Prop where
  opens : Text.ofString "/*" <+: v
  /-- A closing after the opening stands at its end. -/
  closes : Text.ofString "*/" <:+ v.drop 2
  /-- No closing after the opening stands before its end. -/
  first : ∀ i, 2 ≤ i → Text.ofString "*/" <+: v.drop i → i + 2 = v.length

/-- What the pattern of documentation comments finds: closings are looked for after the first three
characters. -/
structure Found (v : Text) : Prop where
  opens : Text.ofString "/**" <+: v
  /-- A closing after them stands at its end. -/
  closes : Text.ofString "*/" <:+ v.drop 3
  /-- No closing after them stands before its end. -/
  first : ∀ i, 3 ≤ i → Text.ofString "*/" <+: v.drop i → i + 2 = v.length

/-- The shortest comment. -/
def shortest : Text := "/**/"

/-! ## What is found -/

theorem found_of_block {t rest : Text} {before : Option CodePoint}
    (h : block before t = some (v, rest)) : Found v := by
  obtain ⟨after, body, -, hbody, rfl⟩ := block_eq_some_iff.mp h
  have hdrop : (("/**" : Text) ++ body ++ "*/").drop 3 = body ++ "*/" := rfl
  have hlength : (("/**" : Text) ++ body ++ "*/").length = 3 + (body.length + 2) := by
    rw [List.append_assoc, List.length_append, List.length_append]
    rfl
  refine ⟨⟨body ++ "*/", (List.append_assoc _ _ _).symm⟩, ?_, ?_⟩
  · rw [hdrop]
    exact List.suffix_append body _
  · intro i hi hclosing
    obtain ⟨j, rfl⟩ := Nat.exists_eq_add_of_le hi
    rw [← List.drop_drop, hdrop] at hclosing
    -- A closing in what is found is one in the text behind the opening.
    have hle : body.length ≤ j := by
      apply Text.length_le_of_breakAt? hbody
      rw [Text.eq_append_of_breakAt? hbody]
      exact hclosing.trans (List.IsPrefix.drop (List.prefix_append _ rest) j)
    have hroom := hclosing.length_le
    rw [List.length_drop, List.length_append] at hroom
    have hclosingLength : (Text.ofString "*/").length = 2 := rfl
    omega

theorem found_of_lastBefore (h : lastBefore content offset = some v) :
    v <:+: content.upTo offset ∧ Found v := by
  obtain ⟨o, ho, rfl⟩ := List.mem_map.mp (List.mem_of_getLast? h)
  obtain ⟨-, before, rest, hfound⟩ := Pattern.exists_of_mem_occurrences ho
  constructor
  · have hfront : o.value <+: (content.upTo offset).drop o.start :=
      ⟨rest, (eq_append_of_block hfound).symm⟩
    exact hfront.isInfix.trans (List.drop_suffix _ _).isInfix
  · exact found_of_block hfound

/-! ## One comment, or more -/

namespace Found

variable (h : Found v)
include h

theorem five_le_length : 5 ≤ v.length := by
  have hlength := h.closes.length_le
  rw [List.length_drop] at hlength
  have hclosing : (Text.ofString "*/").length = 2 := rfl
  omega

theorem drop_two : v.drop 2 = CodePoint.ofChar '*' :: v.drop 3 := by
  obtain ⟨rest, rfl⟩ := h.opens
  rfl

/-- The second asterisk is part of a closing only in the shortest comment. -/
theorem closing_drop_two_iff : Text.ofString "*/" <+: v.drop 2 ↔ shortest <+: v := by
  obtain ⟨rest, rfl⟩ := h.opens
  constructor
  · rintro ⟨after, hafter⟩
    exact ⟨after, congrArg (Text.ofString "/*" ++ ·) hafter⟩
  · rintro ⟨after, hafter⟩
    exact ⟨after, congrArg (List.drop 2) hafter⟩

theorem isOneComment_iff : IsOneComment v ↔ ¬ shortest <+: v := by
  constructor
  · intro hone hshortest
    have hlength := hone.first 2 (Nat.le_refl 2) (h.closing_drop_two_iff.mpr hshortest)
    have := h.five_le_length
    omega
  · intro hnot
    refine ⟨List.IsPrefix.trans ⟨Text.ofString "*", rfl⟩ h.opens, ?_, ?_⟩
    · rw [h.drop_two]
      exact h.closes.trans (List.suffix_cons _ _)
    · intro i hi hclosing
      rcases Nat.eq_or_lt_of_le hi with rfl | hlt
      · exact absurd (h.closing_drop_two_iff.mp hclosing) hnot
      · exact h.first i hlt hclosing

/-- What stands between the shortest comment and the closing at the end lies outside of it. -/
theorem exists_outside (hshortest : shortest <+: v) :
    ∃ outside, v = shortest ++ outside ++ "*/" := by
  obtain ⟨after, rfl⟩ := hshortest
  obtain ⟨inside, hinside⟩ := h.closes
  cases inside with
  | nil => cases hinside
  | cons c outside =>
    obtain ⟨-, rfl⟩ := List.cons.inj hinside
    exact ⟨outside, (List.append_assoc _ _ _).symm⟩

end Found

/-- **What is found as the comment of an offset is one comment unless it starts with the shortest
one.** It is a part of the text before the offset; it opens with a slash and two asterisks and is
closed by the first closing after these three characters, at its end. If a slash follows them, then
they are part of a comment of four characters, and everything up to the next closing, which lies
outside of that comment, is taken into it. -/
theorem lastBefore_isOneComment_iff (h : lastBefore content offset = some v) :
    v <:+: content.upTo offset ∧ Found v ∧ (IsOneComment v ↔ ¬ shortest <+: v) ∧
      (shortest <+: v → ∃ outside, v = shortest ++ outside ++ "*/") := by
  obtain ⟨hinside, hfound⟩ := found_of_lastBefore h
  exact ⟨hinside, hfound, hfound.isOneComment_iff, hfound.exists_outside⟩

/-- The shortest comment takes in a declaration and the comment of the next one. -/
theorem lastBefore_isOneComment_iff_declaration :
    let content : Text := "/**/ get('/a') /** List users */ get('/users')"
    let found : Text := "/**/ get('/a') /** List users */"
    lastBefore content 33 = some found ∧ ¬ IsOneComment found ∧
      ∃ outside, found = shortest ++ outside ++ "*/" := by
  intro content found
  have hfound : lastBefore content 33 = some found := by decide +kernel
  have hshortest : shortest <+: found := by decide
  obtain ⟨-, -, hone, houtside⟩ := lastBefore_isOneComment_iff hfound
  exact ⟨hfound, fun h ↦ hone.mp h hshortest, houtside hshortest⟩

end DocComment

end RouteCatalog
