import Mathlib.Data.List.Chain
import RouteCatalog.Proofs.Text.Ascii
import RouteCatalog.Text.Blank
import RouteCatalog.Text.Split

/-!
# Surrogates in texts

A text that is written as JSON comes back unless it splits a surrogate pair (`Text.Unsplit`). The
texts that are read from files hold no surrogate at all, and what is cut out of such a text or put
together from such texts holds none either (`Text.SurrogateFree`).
-/

namespace RouteCatalog

namespace CodePoint

variable {c : CodePoint}

theorem isHighSurrogate_eq_false (h : c.toNat < 0xD800 ∨ 0xDBFF < c.toNat) :
    c.isHighSurrogate = false := by
  simp only [isHighSurrogate, between, Bool.and_eq_false_iff, decide_eq_false_iff_not]
  omega

theorem isLowSurrogate_eq_false (h : c.toNat < 0xDC00 ∨ 0xDFFF < c.toNat) :
    c.isLowSurrogate = false := by
  simp only [isLowSurrogate, between, Bool.and_eq_false_iff, decide_eq_false_iff_not]
  omega

theorem isSurrogate_eq_false (h : c.toNat < 0xD800 ∨ 0xDFFF < c.toNat) :
    c.isSurrogate = false := by
  rw [isSurrogate, isHighSurrogate_eq_false (by omega), isLowSurrogate_eq_false (by omega)]
  rfl

theorem isSurrogate_ofNat {n : Nat} (h : n < 0xD800 ∨ 0xDFFF < n) :
    (ofNat n).isSurrogate = false := by
  refine isSurrogate_eq_false ?_
  rw [ofNat]
  split
  · exact h
  · exact .inr (by decide)

theorem Plain.isSurrogate (h : c.Plain) : c.isSurrogate = false :=
  isSurrogate_eq_false (.inl (h.1.trans (by decide)))

end CodePoint

namespace Text

variable {s t : Text}

/-- No high surrogate is directly followed by a low one: the two would be read as one character. -/
def Unsplit (t : Text) : Prop :=
  t.IsChain fun a b ↦ ¬(a.isHighSurrogate = true ∧ b.isLowSurrogate = true)

instance (t : Text) : Decidable t.Unsplit :=
  inferInstanceAs (Decidable (t.IsChain _))

/-- No code point is a surrogate. -/
def SurrogateFree (t : Text) : Prop := ∀ c ∈ t, c.isSurrogate = false

instance (t : Text) : Decidable t.SurrogateFree :=
  inferInstanceAs (Decidable (∀ c ∈ t, _))

theorem join_singleton (separator piece : Text) : join separator [piece] = piece :=
  List.intercalate_singleton

theorem join_cons_cons (separator piece next : Text) (rest : List Text) :
    join separator (piece :: next :: rest) = piece ++ separator ++ join separator (next :: rest) :=
  List.intercalate_cons_cons

namespace SurrogateFree

theorem nil : SurrogateFree [] := by simp [SurrogateFree]

theorem of_subset (ht : t.SurrogateFree) (h : s ⊆ t) : s.SurrogateFree :=
  fun c hc ↦ ht c (h hc)

theorem of_plain (ht : t.Plain) : t.SurrogateFree := fun c hc ↦ (ht c hc).isSurrogate

theorem append (hs : s.SurrogateFree) (ht : t.SurrogateFree) : (s ++ t).SurrogateFree := by
  intro c hc
  rcases List.mem_append.mp hc with h | h
  · exact hs c h
  · exact ht c h

theorem join {separator : Text} (hseparator : separator.SurrogateFree) {pieces : List Text}
    (h : ∀ piece ∈ pieces, piece.SurrogateFree) : (Text.join separator pieces).SurrogateFree := by
  induction pieces with
  | nil => exact nil
  | cons piece rest ih =>
    have hpiece := h piece List.mem_cons_self
    have hrest := ih fun p hp ↦ h p (List.mem_cons_of_mem piece hp)
    cases rest with
    | nil => rwa [join_singleton]
    | cons next rest =>
      rw [join_cons_cons]
      exact (hpiece.append hseparator).append hrest

theorem unsplit (h : t.SurrogateFree) : t.Unsplit := by
  refine List.Pairwise.isChain (List.pairwise_of_forall_mem_list fun a ha b hb hab ↦ ?_)
  have hfree := h b hb
  rw [CodePoint.isSurrogate, hab.2, Bool.or_true] at hfree
  cases hfree

end SurrogateFree

theorem Unsplit.of_isInfix (ht : t.Unsplit) (h : s <:+: t) : s.Unsplit := by
  obtain ⟨before, after, rfl⟩ := h
  exact ht.left_of_append.right_of_append

theorem Unsplit.append_cons {c : CodePoint} (hs : s.Unsplit) (hc : c.isSurrogate = false)
    (ht : t.Unsplit) : (s ++ c :: t).Unsplit := by
  rw [CodePoint.isSurrogate, Bool.or_eq_false_iff] at hc
  refine List.IsChain.append hs (List.IsChain.cons ht fun b _ hcb ↦ ?_) fun a _ b hb hab ↦ ?_
  · rw [hc.1] at hcb
    cases hcb.1
  · cases hb
    rw [hc.2] at hab
    cases hab.2

theorem Unsplit.join {c : CodePoint} (hc : c.isSurrogate = false) {pieces : List Text}
    (h : ∀ piece ∈ pieces, piece.Unsplit) : (Text.join [c] pieces).Unsplit := by
  induction pieces with
  | nil => exact List.IsChain.nil
  | cons piece rest ih =>
    have hpiece := h piece List.mem_cons_self
    have hrest := ih fun p hp ↦ h p (List.mem_cons_of_mem piece hp)
    cases rest with
    | nil => rwa [join_singleton]
    | cons next rest =>
      rw [join_cons_cons, List.append_assoc]
      exact hpiece.append_cons hc hrest

/-! ## Pieces -/

theorem dropLiteral?_isSuffix {literal rest : Text} (h : dropLiteral? literal t = some rest) :
    rest <:+ t := by
  rw [dropLiteral?_eq_some_iff.mp h]
  exact List.suffix_append literal rest

theorem trimLeft_isSuffix (t : Text) : t.trimLeft <:+ t := List.dropWhile_suffix _

theorem trimRight_subset (t : Text) : t.trimRight ⊆ t := by
  induction t with
  | nil => exact fun c hc ↦ hc
  | cons c t ih =>
    rw [trimRight]
    split
    · split
      · exact List.nil_subset _
      · exact List.cons_subset_cons c (List.nil_subset t)
    · next rest _ => exact List.cons_subset_cons c ih

theorem trim_subset (t : Text) : t.trim ⊆ t :=
  List.Subset.trans (trimRight_subset _) (trimLeft_isSuffix t).subset

theorem splitOn_eq (separator : CodePoint) (t : Text) :
    Text.splitOn separator t = List.splitOn separator t := by
  induction t with
  | nil => rfl
  | cons c t ih =>
    unfold Text.splitOn at ih ⊢
    rw [List.foldr_cons, ih, List.splitOn_cons_eq_if_modifyHead]
    by_cases hc : c = separator
    · rw [if_pos hc, if_pos (beq_iff_eq.mpr hc)]
    · rw [if_neg hc, if_neg (by simpa using hc)]
      obtain ⟨piece, rest, hsplit⟩ := List.exists_cons_of_ne_nil (List.splitOn_ne_nil separator t)
      rw [hsplit]
      rfl

theorem isInfix_join {separator piece : Text} {pieces : List Text} (h : piece ∈ pieces) :
    piece <:+: join separator pieces := by
  induction pieces with
  | nil => cases h
  | cons p rest ih =>
    cases rest with
    | nil =>
      obtain rfl := List.mem_singleton.mp h
      exact (join_singleton separator piece).symm ▸ List.infix_rfl
    | cons next rest =>
      rw [join_cons_cons]
      rcases List.mem_cons.mp h with rfl | h
      · rw [List.append_assoc]
        exact (List.prefix_append _ _).isInfix
      · exact (ih h).trans (List.suffix_append _ _).isInfix

theorem isInfix_of_mem_splitOn {separator : CodePoint} {piece : Text}
    (h : piece ∈ t.splitOn separator) : piece <:+: t := by
  rw [splitOn_eq] at h
  have hjoin : join [separator] (List.splitOn separator t) = t := List.intercalate_splitOn separator
  exact hjoin ▸ isInfix_join h

theorem lines_subset {line : Text} (h : line ∈ t.lines) : line ⊆ t :=
  (isInfix_of_mem_splitOn h).subset

end Text

end RouteCatalog
