import Mathlib.Data.List.Forall2
import RouteCatalog.Text.Blank
import RouteCatalog.Text.Case

/-!
# Words in any letter case

A word of small letters of ASCII may be written in either case, and some of its letters have forms
outside ASCII. In upper case all these spellings are one text (`Text.upper_of_sameLetters`), with
the exception of the Kelvin sign and the dotted `İ`, which stay what they are. No form of a letter
is blank.
-/

namespace RouteCatalog

namespace CodePoint

variable {letter c : CodePoint}

theorem sameLetter_iff :
    sameLetter letter c = true ↔ c = letter ∨ (c.toNat + 0x20 = letter.toNat ∧
      0x41 ≤ c.toNat ∧ c.toNat ≤ 0x5A) ∨ (c.toNat = 0x17F ∧ letter = 's') ∨
        (c.toNat = 0x212A ∧ letter = 'k') ∨
          (0x130 ≤ c.toNat ∧ c.toNat ≤ 0x131) ∧ letter = 'i' := by
  simp [sameLetter, between, or_assoc]

theorem upper_of_small (h : letter.between 0x61 0x7A = true) :
    letter.upper = [ofNat (letter.toNat - 0x20)] := if_pos h

/-- All forms of a letter are the same in upper case, if it is neither `k` nor `i`. -/
theorem upper_of_sameLetter (hletter : letter.between 0x61 0x7A = true)
    (hkelvin : letter ≠ 'k') (hdotted : letter ≠ 'i') (h : sameLetter letter c = true) :
    c.upper = letter.upper := by
  rcases sameLetter_iff.mp h with rfl | ⟨hc, hlow, hhigh⟩ | ⟨hc, rfl⟩ | ⟨-, rfl⟩ | ⟨-, rfl⟩
  · rfl
  · -- A capital letter is its own upper case.
    have hself : c.upper = [c] := by
      have hsmall : ¬ c.between 0x61 0x7A = true := by
        simp only [between, Bool.and_eq_true, decide_eq_true_eq]
        omega
      rw [upper, if_neg hsmall]
      repeat rw [if_neg (by omega)]
    rw [hself, upper_of_small hletter, ← hc, Nat.add_sub_cancel, ofNat_toNat]
  · obtain rfl : c = ofNat 0x17F := toNat_injective hc
    rfl
  · exact absurd rfl hkelvin
  · exact absurd rfl hdotted

theorem isBlank_of_sameLetter (hletter : letter.between 0x61 0x7A = true)
    (h : sameLetter letter c = true) : c.isBlank = false := by
  simp only [between, Bool.and_eq_true, decide_eq_true_eq] at hletter
  have hcases : (0x61 ≤ c.toNat ∧ c.toNat ≤ 0x7A) ∨ (0x41 ≤ c.toNat ∧ c.toNat ≤ 0x5A) ∨
      c.toNat = 0x17F ∨ c.toNat = 0x212A ∨ (0x130 ≤ c.toNat ∧ c.toNat ≤ 0x131) := by
    rcases sameLetter_iff.mp h with rfl | ⟨-, hc⟩ | ⟨hc, -⟩ | ⟨hc, -⟩ | ⟨hc, -⟩
    · exact .inl hletter
    · exact .inr (.inl hc)
    · exact .inr (.inr (.inl hc))
    · exact .inr (.inr (.inr (.inl hc)))
    · exact .inr (.inr (.inr (.inr hc)))
  simp [isBlank, blankRanges, inRanges]
  omega

end CodePoint

namespace Text

/-- The letters of a word, each in any form. -/
abbrev SameLetters : (word written : Text) → Prop :=
  List.Forall₂ fun letter c ↦ CodePoint.sameLetter letter c = true

theorem trim_of_not_blank {t : Text} (h : ∀ c ∈ t, c.isBlank = false) : t.trim = t := by
  have hleft : t.trimLeft = t := by
    cases t with
    | nil => rfl
    | cons c t =>
      rw [trimLeft, List.dropWhile_cons_of_neg]
      rw [h c List.mem_cons_self]
      decide
  have hright : t.trimRight = t := by
    clear hleft
    induction t with
    | nil => rfl
    | cons c t ih =>
      obtain ⟨hc, ht⟩ := List.forall_mem_cons.mp h
      rw [trimRight, ih ht]
      cases t with
      | nil =>
        dsimp only
        rw [hc]
        rfl
      | cons _ _ => rfl
  rw [trim, hleft, hright]

/-- **All spellings of a word are the same in upper case.** -/
theorem upper_of_sameLetters {word written : Text}
    (hword : ∀ letter ∈ word,
      letter.between 0x61 0x7A = true ∧ letter ≠ 'k' ∧ letter ≠ 'i')
    (h : SameLetters word written) : written.upper = word.upper := by
  induction h with
  | nil => rfl
  | cons hletter _ ih =>
    obtain ⟨⟨hsmall, hkelvin, hdotted⟩, hrest⟩ := List.forall_mem_cons.mp hword
    rw [upper, List.flatMap_cons, CodePoint.upper_of_sameLetter hsmall hkelvin hdotted hletter]
    exact congrArg _ (ih hrest)

theorem trim_of_sameLetters {word written : Text}
    (hword : ∀ letter ∈ word, letter.between 0x61 0x7A = true) (h : SameLetters word written) :
    written.trim = written := by
  refine trim_of_not_blank fun c hc ↦ ?_
  induction h with
  | nil => cases hc
  | cons hletter _ ih =>
    obtain ⟨hsmall, hrest⟩ := List.forall_mem_cons.mp hword
    rcases List.mem_cons.mp hc with rfl | hc
    · exact CodePoint.isBlank_of_sameLetter hsmall hletter
    · exact ih hrest hc

end Text

end RouteCatalog
