import RouteCatalog.Proofs.DocComment.Block
import RouteCatalog.Proofs.Text.LineFeed

/-!
# Comments in texts that differ in line feeds

Line feeds neither open nor close a comment. Put at the start of a line outside every comment, they
leave the comments as they are (`DocComment.spreads_block`), and so the comment that belongs to a
place (`DocComment.lastBefore_insert`).
-/

namespace RouteCatalog

open Text

namespace DocComment

variable {tail t t' body rest : Text} {m n k : Nat}

/-! ## The pattern -/

theorem breakAt?_lineFeeds (k : Nat) (t : Text) : breakAt? "*/" (lineFeeds k ++ t) =
    (breakAt? "*/" t).map fun (body, rest) ↦ (lineFeeds k ++ body, rest) := by
  induction k with
  | zero =>
    change breakAt? "*/" t = (breakAt? "*/" t).map id
    rw [Option.map_id, id]
  | succ k ih =>
    change ((breakAt? "*/" (lineFeeds k ++ t)).map _) = _
    rw [ih, Option.map_map]
    rfl

/-- The end of a comment is found in both texts, before or behind the line feeds. -/
theorem breakAt?_spread (ht : Spread tail m n t t') (h : breakAt? "*/" t = some (body, rest)) :
    ∃ body' rest', breakAt? "*/" t' = some (body', rest') ∧ Spread tail m n rest rest' ∧
      (body' = body ∨ rest.length < tail.length ∧ tail.length ≤ rest.length + body.length + 2) := by
  have hclosing : (Text.ofString "*/").length = 2 := rfl
  have honeLine : CodePoint.ofChar '\n' ∉ Text.ofString "*/" := by decide
  have hdrop (m n : Nat) := (respacing_spread tail m n).keeps_dropLiteral? honeLine
  rcases ht with ⟨rfl, hle⟩ | ⟨x, rfl, rfl⟩
  · refine ⟨body, rest, h, .inl ⟨rfl, ?_⟩, .inl rfl⟩
    have hlength := congrArg List.length (eq_append_of_breakAt? h)
    rw [List.length_append] at hlength
    omega
  · induction x generalizing body with
    | nil =>
      change breakAt? "*/" (lineFeeds (m + 1) ++ tail) = _ at h
      rw [breakAt?_lineFeeds, Option.map_eq_some_iff] at h
      obtain ⟨⟨behind, rest⟩, hbehind, heq⟩ := h
      cases heq
      have hlength := congrArg List.length (eq_append_of_breakAt? hbehind)
      rw [List.length_append, List.length_append, hclosing] at hlength
      refine ⟨lineFeeds (n + 1) ++ behind, rest, ?_, .inl ⟨rfl, by omega⟩, .inr ⟨by omega, ?_⟩⟩
      · change breakAt? "*/" (lineFeeds (n + 1) ++ tail) = _
        rw [breakAt?_lineFeeds, hbehind]
        rfl
      · rw [List.length_append]
        omega
    | cons c x ih =>
      have hspread (m n : Nat) :
          Spread tail m n (c :: x ++ CodePoint.ofChar '\n' :: (lineFeeds m ++ tail))
            (c :: x ++ CodePoint.ofChar '\n' :: (lineFeeds n ++ tail)) := .inr ⟨c :: x, rfl, rfl⟩
      rw [List.cons_append, breakAt?] at h ⊢
      split at h
      · next rest₀ hfound =>
        cases h
        obtain ⟨rest', hfound', hrest⟩ := hdrop m n (hspread m n) hfound
        rw [List.cons_append] at hfound'
        rw [hfound']
        exact ⟨[], rest', rfl, hrest, .inl rfl⟩
      · next hnone =>
        have hnone' := (hspread m n).declines (hdrop n m) hnone
        rw [List.cons_append] at hnone'
        obtain ⟨⟨before, _⟩, hbefore, heq⟩ := Option.map_eq_some_iff.mp h
        cases heq
        obtain ⟨before', rest', hbefore', hrest, hsame⟩ := ih hbefore
        rw [hnone', hbefore']
        refine ⟨c :: before', rest', rfl, hrest, hsame.imp (congrArg (c :: ·)) fun hcut ↦ ?_⟩
        rw [List.length_cons]
        omega

/-- The last `n` characters of a text start within the comment at its front. -/
def CutAt (before : Option CodePoint) (t : Text) (n : Nat) : Prop :=
  ∃ v rest, block before t = some (v, rest) ∧ rest.length < n ∧ n < rest.length + v.length

theorem spreads_block : block.Spreads CutAt where
  keeps {tail m n before t t' v rest} ht h := by
    obtain ⟨after, body, rfl, hbody, rfl⟩ := block_eq_some_iff.mp h
    obtain ⟨after', rfl, hafter⟩ := (respacing_spread tail m n).append (by decide) ht
    obtain ⟨body', rest', hbody', hrest, hsame⟩ := breakAt?_spread hafter hbody
    refine ⟨"/**" ++ body' ++ "*/", rest', block_eq_some_iff.mpr ⟨after', body', rfl, hbody', rfl⟩,
      hrest, hsame.imp (fun heq ↦ by rw [heq]) fun ⟨hlt, hle⟩ ↦ ⟨_, _, h, hlt, ?_⟩⟩
    have hopening : (Text.ofString "/**").length = 3 := rfl
    have hclosing : (Text.ofString "*/").length = 2 := rfl
    rw [List.length_append, List.length_append, hopening, hclosing]
    omega
  feed before t := rfl
  start t := rfl

theorem leavesEnd_block : block.LeavesEnd := fun _ _ _ _ h ↦ ⟨_, (eq_append_of_block h).symm⟩

/-! ## Comments before a place -/

section Insert

variable {head : Text} (hline : head = [] ∨ head.getLast? = some (CodePoint.ofChar '\n'))
  (hcomments : ∀ b ∈ block.occurrences (head ++ tail),
    ¬ (b.start < head.length ∧ head.length < b.stop))
include hline hcomments

theorem occurrences_block_insert : block.occurrences (head ++ (lineFeeds k ++ tail)) =
    (block.occurrences (head ++ tail)).map (Pattern.moved head.length k) := by
  refine spreads_block.occurrences_insert leavesEnd_block block_incremental.shortens hline ?_
  rintro o ho hstart ⟨v, rest, hfound, hlt, hle⟩
  obtain ⟨-, hinside, hfound'⟩ := Pattern.at?_eq_some leavesEnd_block
    (Pattern.at?_of_mem_occurrences leavesEnd_block block_incremental.shortens ho)
  rw [List.length_append] at hinside
  rw [hfound] at hfound'
  cases hfound'
  have hlength := congrArg List.length (eq_append_of_block hfound)
  obtain ⟨hstop, hstop'⟩ := hinside (by omega)
  simp only [List.length_append, List.length_drop] at hlength hlt hle
  exact hcomments o ho ⟨hstart, by omega⟩

/-- **The comment that belongs to a place is the same** after line feeds are put in at the start of
a line outside every comment. -/
theorem lastBefore_insert {place : Nat} (hplace : place ≤ (head ++ tail).length) :
    lastBefore (head ++ (lineFeeds k ++ tail)) (below head.length k place : Nat) =
      lastBefore (head ++ tail) place := by
  have hposition {t : Text} {i : Nat} (h : i ≤ t.length) : t.position i = i := by
    rw [Text.position, if_pos (Int.natCast_nonneg i), Int.toNat_natCast, Nat.min_eq_left h]
  have hbelow : below head.length k place ≤ (head ++ (lineFeeds k ++ tail)).length := by
    rw [Pattern.Spreads.length_insert, below]
    split <;> omega
  rw [lastBefore, lastBefore, blocks, blocks, occurrences_upTo, occurrences_upTo,
    occurrences_block_insert hline hcomments, hposition hplace, hposition hbelow, List.filter_map,
    List.map_map]
  have hfilter : (block.occurrences (head ++ tail)).filter
        ((fun b ↦ decide (b.stop ≤ below head.length k place)) ∘ Pattern.moved head.length k) =
      (block.occurrences (head ++ tail)).filter fun b ↦ decide (b.stop ≤ place) := by
    refine List.filter_congr fun b hb ↦ ?_
    obtain ⟨-, hinside, -⟩ := Pattern.at?_eq_some leavesEnd_block
      (Pattern.at?_of_mem_occurrences leavesEnd_block block_incremental.shortens hb)
    have hle : b.start ≤ b.stop :=
      (hinside (Pattern.exists_of_mem_occurrences hb).1.le).1
    rw [Function.comp_apply, Pattern.moved_stop hle, decide_eq_decide]
    exact not_iff_not.mp (by simpa only [Nat.not_le] using below_lt_below)
  rw [hfilter]
  rfl

end Insert

end DocComment

end RouteCatalog
