import RouteCatalog.Proofs.Number.Digits
import RouteCatalog.Proofs.Text.Ascii

/-!
# Decimal numerals are read

The numeral of a natural number is read as that number, unless it has more digits than are allowed
(`Numeral.readIn_ofNat`).
-/

namespace RouteCatalog

theorem CodePoint.isAsciiDigit_iff {c : CodePoint} :
    c.isAsciiDigit = true ↔ 0x30 ≤ c.toNat ∧ c.toNat ≤ 0x39 := by
  rw [isAsciiDigit, between, Bool.and_eq_true, decide_eq_true_eq, decide_eq_true_eq]

theorem Text.ofNat_ne_nil (n : Nat) : Text.ofNat n ≠ [] := fun h ↦
  Nat.toDigits_ne_nil (List.map_eq_nil_iff.mp h)

/-- What holds of the ten digits, as a check of ASCII shows, holds of a digit. -/
theorem CodePoint.of_isAsciiDigit {p : CodePoint → Bool} {c : CodePoint}
    (h : ∀ n < 0x80, isAsciiDigit (.ofNat n) = true → p (.ofNat n) = true)
    (hc : c.isAsciiDigit = true) : p c = true := by
  have hlow := (isAsciiDigit_iff.mp hc).2
  exact of_ascii (by omega) h hc

namespace Numeral

variable {c : CodePoint} {t : Text}

theorem digitValue?_of_isAsciiDigit (h : c.isAsciiDigit = true) :
    digitValue? c = some (c.toNat - 0x30) := by
  have hlow : c.toNat < 0x80 := by
    rw [CodePoint.isAsciiDigit_iff] at h
    omega
  rw [digitValue?, CodePoint.digit?, if_pos hlow, if_pos h]
  rfl

theorem lt_ten_of_isAsciiDigit (h : c.isAsciiDigit = true) : c.toNat - 0x30 < 10 := by
  rw [CodePoint.isAsciiDigit_iff] at h
  omega

theorem digits?_eq (ht : t ≠ []) (h : ∀ c ∈ t, c.isAsciiDigit = true) :
    digits? 10 digitValue? t = some (t.map fun c ↦ c.toNat - 0x30) := by
  induction t with
  | nil => exact absurd rfl ht
  | cons c t ih =>
    obtain ⟨hc, hall⟩ := List.forall_mem_cons.mp h
    have hvalue := digitValue?_of_isAsciiDigit hc
    have hlt := lt_ten_of_isAsciiDigit hc
    cases t with
    | nil => rw [digits?, hvalue, Option.bind_some, if_pos hlt]; rfl
    | cons u t =>
      have hbar : u ≠ '_' := by
        rintro rfl
        exact absurd (hall _ List.mem_cons_self) (by decide)
      rw [digits?, hvalue, Option.bind_some, if_pos hlt, if_neg hbar,
        ih (List.cons_ne_nil u t) hall]
      rfl

theorem isPadding_of_isAsciiDigit (h : c.isAsciiDigit = true) (t : Text) :
    isPadding t c = false := by
  have hnone := CodePoint.of_isAsciiDigit (p := fun c ↦ !isAsciiBlank c && !c.isBlank) (by decide) h
  rw [Bool.and_eq_true, Bool.not_eq_true', Bool.not_eq_true'] at hnone
  rw [isPadding]
  split
  · exact hnone.1
  · exact hnone.2

theorem dropWhile_isPadding (s : Text) (h : ∀ c ∈ t, c.isAsciiDigit = true) :
    t.dropWhile (isPadding s) = t := by
  cases t with
  | nil => rfl
  | cons c t =>
    rw [List.dropWhile_cons, isPadding_of_isAsciiDigit (h c List.mem_cons_self),
      if_neg Bool.false_ne_true]

theorem unpad_eq (h : ∀ c ∈ t, c.isAsciiDigit = true) : unpad t = t := by
  rw [unpad, dropWhile_isPadding t h, dropWhile_isPadding t (by simpa using h),
    List.reverse_reverse]

theorem splitSign_eq (h : ∀ c ∈ t, c.isAsciiDigit = true) : splitSign t = (false, t) := by
  cases t with
  | nil => rfl
  | cons c t =>
    have hc := h c List.mem_cons_self
    have hminus : c ≠ '-' := by
      rintro rfl
      exact absurd hc (by decide)
    have hplus : c ≠ '+' := by
      rintro rfl
      exact absurd hc (by decide)
    rw [splitSign, if_neg hminus, if_neg hplus]

theorem withoutMark_ten (t : Text) : withoutMark 10 t = t := by
  rcases t with _ | ⟨z, _ | ⟨m, t⟩⟩
  · rfl
  · rfl
  · show (if (decide (z = '0') && false) = true then _ else _) = _
    rw [Bool.and_false, if_neg Bool.false_ne_true]

/-- **The numeral of a number is read as the number.** -/
theorem readIn_ofNat {n : Nat} (hn : (Text.ofNat n).length ≤ maxDigits) :
    readIn 10 (Text.ofNat n) = .ok (n : Int) := by
  have hdigits := (allDigits_toDigits n).isAsciiDigit
  have hlimit : (decide (10 = 10) &&
      decide (((Text.ofNat n).map fun c ↦ c.toNat - 0x30).length > maxDigits)) = false := by
    rw [List.length_map, Bool.and_eq_false_iff]
    exact .inr (decide_eq_false (Nat.not_lt.mpr hn))
  rw [← Text.ofNat] at hdigits
  rw [readIn, unpad_eq hdigits, splitSign_eq hdigits]
  dsimp only
  rw [withoutMark_ten, digits?_eq (Text.ofNat_ne_nil n) hdigits]
  dsimp only
  rw [hlimit]
  exact congrArg (fun m : Nat ↦ Except.ok (m : Int)) (Json.Token.digitsValue_ofNat n)

end Numeral

end RouteCatalog
