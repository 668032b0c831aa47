import RouteCatalog.Proofs.Number.Digits

/-!
# Rounding fractions and decimals

Rounding to a magnitude depends on the value of a fraction, not on how it is written: a common
factor of numerator and denominator does not matter (`ofRatio?_mul_right`), and neither do zeros at
the end of a decimal's digits when its exponent makes up for them (`ofDecimal?_mul_pow`). A fraction
that is a magnitude already is rounded to itself (`ofRatio?_units`).
-/

namespace RouteCatalog.Magnitude

/-! ## Common factors -/

theorem roundDiv_mul_right {k : Nat} (hk : 0 < k) (num den : Nat) :
    roundDiv (num * k) (den * k) = roundDiv num den := by
  have hlt (a b : Nat) : 2 * (a * k) < b * k ↔ 2 * a < b := by
    rw [← Nat.mul_assoc, Nat.mul_lt_mul_right hk]
  have hgt (a b : Nat) : b * k < 2 * (a * k) ↔ b < 2 * a := by
    rw [← Nat.mul_assoc, Nat.mul_lt_mul_right hk]
  simp only [roundDiv, Nat.mul_div_mul_right _ _ hk, Nat.mul_mod_mul_right, hlt, hgt]

theorem roundDiv_mul_self {den : Nat} (hden : 0 < den) (q : Nat) : roundDiv (q * den) den = q := by
  rw [roundDiv, Nat.mul_div_cancel _ hden, Nat.mul_mod_left]
  exact if_pos hden

theorem exponentOf_mul_right {k : Nat} (hk : 0 < k) (num den : Nat) :
    exponentOf (num * k) (den * k) = exponentOf num den := by
  rw [exponentOf, exponentOf, Nat.mul_right_comm, Nat.mul_div_mul_right _ _ hk]

theorem ofRatio?_mul_right {k : Nat} (hk : 0 < k) (num den : Nat) :
    ofRatio? (num * k) (den * k) = ofRatio? num den := by
  rw [ofRatio?, ofRatio?, exponentOf_mul_right hk, Nat.mul_right_comm num,
    Nat.mul_right_comm den, roundDiv_mul_right hk]

/-! ## Zeros at the end of a decimal -/

/-- A decimal whose size is in range is rounded as a fraction of two powers of ten, one of which is
one. -/
theorem ofDecimal?_eq_ofRatio? {digits : Nat} {power : Int} (hdigits : digits ≠ 0)
    (hlarge : ((Nat.toDigits 10 digits).length : Int) + power ≤ 400)
    (hsmall : -400 ≤ ((Nat.toDigits 10 digits).length : Int) + power) :
    ofDecimal? digits power =
      ofRatio? (digits * Nat.pow 10 power.toNat) (Nat.pow 10 (-power).toNat) := by
  unfold ofDecimal?
  dsimp only
  rw [if_neg hdigits, if_neg (by omega), if_neg (by omega)]
  cases power with
  | ofNat p =>
    have h : (-(Int.ofNat p)).toNat = 0 := by
      simp only [Int.ofNat_eq_natCast]
      omega
    rw [h]
    rfl
  | negSucc p =>
    dsimp only
    have h : (-(Int.negSucc p)).toNat = p + 1 := rfl
    have h' : (Int.negSucc p).toNat = 0 := rfl
    rw [h, h']
    exact congrArg (ofRatio? · _) (Nat.mul_one digits).symm

private theorem ofRatio?_pow_shift (n k : Nat) (power : Int) :
    ofRatio? (n * Nat.pow 10 k * Nat.pow 10 power.toNat) (Nat.pow 10 (-power).toNat) =
      ofRatio? (n * Nat.pow 10 (power + k).toNat) (Nat.pow 10 (-(power + k)).toNat) := by
  -- The two fractions differ by a power of ten that stands above and below.
  obtain ⟨c, hnum, hden⟩ : ∃ c, k + power.toNat = (power + k).toNat + c ∧
      (-power).toNat = (-(power + k)).toNat + c :=
    ⟨k + power.toNat - (power + k).toNat, by omega, by omega⟩
  have hnumPow : n * Nat.pow 10 k * Nat.pow 10 power.toNat =
      n * Nat.pow 10 (power + k).toNat * Nat.pow 10 c := by
    simp only [Nat.pow_eq]
    rw [Nat.mul_assoc, Nat.mul_assoc, ← Nat.pow_add, ← Nat.pow_add, hnum]
  have hdenPow : Nat.pow 10 (-power).toNat =
      Nat.pow 10 (-(power + k)).toNat * Nat.pow 10 c := by
    simp only [Nat.pow_eq]
    rw [← Nat.pow_add, hden]
  rw [hnumPow, hdenPow, ofRatio?_mul_right (k := Nat.pow 10 c) (Nat.pow_pos (by decide))]

theorem ofDecimal?_mul_pow (n k : Nat) (power : Int) :
    ofDecimal? (n * Nat.pow 10 k) power = ofDecimal? n (power + k) := by
  by_cases hn : n = 0
  · unfold ofDecimal?
    rw [hn, Nat.zero_mul, if_pos rfl, if_pos rfl]
  · have hpos : 0 < n := Nat.pos_of_ne_zero hn
    have hne : n * Nat.pow 10 k ≠ 0 :=
      Nat.ne_of_gt (Nat.mul_pos hpos (Nat.pow_pos (by decide)))
    have hlen := Numeral.length_toDigits_mul_pow hpos k
    -- The bounds are on the place of the first digit, which appended zeros do not change.
    by_cases hlarge : ((Nat.toDigits 10 n).length : Int) + (power + k) ≤ 400
    · by_cases hsmall : -400 ≤ ((Nat.toDigits 10 n).length : Int) + (power + k)
      · rw [ofDecimal?_eq_ofRatio? hne (by omega) (by omega),
          ofDecimal?_eq_ofRatio? hn hlarge hsmall, ofRatio?_pow_shift]
      · unfold ofDecimal?
        dsimp only
        rw [if_neg hne, if_neg hn, if_neg (by omega), if_pos (by omega), if_neg (by omega),
          if_pos (by omega)]
    · unfold ofDecimal?
      dsimp only
      rw [if_neg hne, if_neg hn, if_pos (by omega), if_pos (by omega)]

/-! ## Magnitudes are fixed -/

theorem exponentOf_units (m : Magnitude) : exponentOf m.units one = m.exp := by
  obtain ⟨hlt, -, hcan⟩ := m.canonical
  rw [exponentOf, Nat.mul_div_cancel _ one_pos, units]
  simp only [Nat.pow_eq] at hlt hcan ⊢
  -- Only at the least exponent may the significand be short of its leading bit.
  cases hexp : m.exp with
  | zero => rw [Nat.pow_zero, Nat.mul_one, if_pos hlt]
  | succ e =>
    have hge : 2 ^ 52 ≤ m.mant := by
      rcases hcan with h | h
      · exact h
      · omega
    have hlow : 2 ^ (52 + (e + 1)) ≤ m.mant * 2 ^ (e + 1) := by
      rw [Nat.pow_add 2 52]
      exact Nat.mul_le_mul_right _ hge
    have hhigh : m.mant * 2 ^ (e + 1) < 2 ^ (53 + (e + 1)) := by
      rw [Nat.pow_add 2 53]
      exact Nat.mul_lt_mul_of_pos_right hlt (Nat.two_pow_pos _)
    have hnormal : 2 ^ 53 ≤ m.mant * 2 ^ (e + 1) :=
      (Nat.pow_le_pow_right (by decide) (by omega)).trans hlow
    have hne : m.mant * 2 ^ (e + 1) ≠ 0 :=
      Nat.ne_of_gt (Nat.lt_of_lt_of_le (Nat.two_pow_pos _) hlow)
    have hlog : (m.mant * 2 ^ (e + 1)).log2 = 52 + (e + 1) :=
      (Nat.log2_eq_iff hne).mpr ⟨hlow, by rwa [show 52 + (e + 1) + 1 = 53 + (e + 1) by omega]⟩
    rw [if_neg (Nat.not_lt.mpr hnormal), hlog]
    omega

theorem ofRatio?_units (m : Magnitude) : ofRatio? m.units one = some m := by
  have hround : roundDiv (m.units * one) (one * Nat.pow 2 m.exp) = m.mant := by
    rw [units, Nat.mul_assoc, Nat.mul_comm (Nat.pow 2 m.exp)]
    exact roundDiv_mul_self (Nat.mul_pos one_pos (Nat.pow_pos Nat.two_pos)) _
  rw [ofRatio?, exponentOf_units, hround, if_neg (Nat.ne_of_lt m.canonical.1), ofParts?_mant_exp]

end RouteCatalog.Magnitude
