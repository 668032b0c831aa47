import RouteCatalog.Proofs.Number.Rounding

/-!
# Chosen decimals read back

The decimal that is chosen for a magnitude reads back as that magnitude (`ofDecimal?_shortest`): on
the grids of one to seventeen digits because it was checked, and past them because the exact decimal
is used, whose size is within the range that is not decided by size alone.
-/

namespace RouteCatalog

namespace Magnitude

/-! ## The exact decimal

Its size is bounded with powers whose exponents are variables. -/

theorem power_two_mul_power_five (k : Nat) : power 2 k * power 5 k = Nat.pow 10 k := by
  simp only [power, Nat.pow_eq]
  rw [← Nat.mul_pow]

private theorem power_two_le (a : Nat) : power 2 (3 * a) ≤ Nat.pow 10 a := by
  simp only [power, Nat.pow_eq]
  rw [Nat.pow_mul]
  exact Nat.pow_le_pow_left (by decide) a

private theorem le_power_five (a : Nat) : Nat.pow 10 (2 * a) ≤ power 5 (3 * a) := by
  simp only [power, Nat.pow_eq]
  rw [Nat.pow_mul, Nat.pow_mul]
  exact Nat.pow_le_pow_left (by decide) a

private theorem length_toDigits_exact_le {n k a : Nat} (hk : 0 < k)
    (hn : n < power 2 (k + 3 * a)) :
    (Nat.toDigits 10 (n * power 5 k)).length ≤ k + a := by
  have hsplit : power 2 (k + 3 * a) = power 2 k * power 2 (3 * a) := Nat.pow_add 2 k (3 * a)
  rw [Nat.length_toDigits_le_iff (by decide) (by omega), Nat.pow_add]
  calc n * power 5 k < power 2 (k + 3 * a) * power 5 k :=
        Nat.mul_lt_mul_of_pos_right hn (power_pos (by decide) k)
    _ = Nat.pow 10 k * power 2 (3 * a) := by
        rw [hsplit, Nat.mul_right_comm, power_two_mul_power_five]
    _ ≤ 10 ^ k * 10 ^ a := Nat.mul_le_mul_left _ (power_two_le a)

private theorem lt_length_toDigits_exact {n a : Nat} (hn : 0 < n) (ha : 0 < a) :
    2 * a < (Nat.toDigits 10 (n * power 5 (3 * a))).length := by
  rw [Numeral.lt_length_toDigits_iff (by omega)]
  exact (le_power_five a).trans (Nat.le_mul_of_pos_left _ hn)

private theorem units_lt (m : Magnitude) {e : Nat} (he : m.exp ≤ e) :
    m.units < power 2 (53 + e) := by
  have hmant : m.mant < 2 ^ 53 := m.canonical.1
  have hexp : 2 ^ m.exp ≤ 2 ^ e := Nat.pow_le_pow_right Nat.two_pos he
  have hsplit : power 2 (53 + e) = 2 ^ 53 * 2 ^ e := Nat.pow_add 2 53 e
  rw [hsplit, units]
  exact Nat.mul_lt_mul_of_lt_of_le hmant hexp (Nat.two_pow_pos e)

private theorem ofDecimal?_mul_power_five {n k : Nat} (hn : 0 < n)
    (hlarge : (Nat.toDigits 10 (n * power 5 k)).length ≤ k + 400)
    (hsmall : k ≤ (Nat.toDigits 10 (n * power 5 k)).length + 400) :
    ofDecimal? (n * power 5 k) (-(k : Int)) = ofRatio? n (power 2 k) := by
  have hne : n * power 5 k ≠ 0 := Nat.ne_of_gt (Nat.mul_pos hn (power_pos (by decide) k))
  have hnum : (-(k : Int)).toNat = 0 := by omega
  have hden : (-(-(k : Int))).toNat = k := by omega
  rw [ofDecimal?_eq_ofRatio? hne (by omega) (by omega), hnum, hden, Nat.pow_eq, Nat.pow_zero,
    Nat.mul_one, ← power_two_mul_power_five, ofRatio?_mul_right (power_pos (by decide) k)]

theorem ofDecimal?_exact {m : Magnitude} (hm : m.mant ≠ 0) :
    ofDecimal? (m.units * power 5 1074) (-1074) = some m := by
  have hpos : 0 < m.units := Nat.mul_pos (Nat.pos_of_ne_zero hm) (Nat.pow_pos Nat.two_pos)
  have hlt : m.units < power 2 (1074 + 3 * 400) :=
    units_lt (e := 2221) m (m.canonical.2.1.trans (by decide))
  have hlong := length_toDigits_exact_le (by decide) hlt
  have hshort : 2 * 358 < (Nat.toDigits 10 (m.units * power 5 1074)).length :=
    lt_length_toDigits_exact hpos (by decide)
  exact (ofDecimal?_mul_power_five hpos hlong (by omega)).trans (ofRatio?_units m)

/-! ## The shortest decimal -/

private theorem ofDecimal?_shortestFrom {m : Magnitude} (hm : m.mant ≠ 0) (exponent : Int)
    (more count : Nat) :
    ofDecimal? (m.shortestFrom exponent more count).digits
      (m.shortestFrom exponent more count).power = some m := by
  induction more generalizing count with
  | zero => exact ofDecimal?_exact hm
  | succ more ih =>
    rw [shortestFrom]
    split
    · next d hd =>
      have hback : m.readsBack d = true := List.find?_some hd
      exact of_decide_eq_true hback
    · exact ih (count + 1)

theorem ofDecimal?_shortest {m : Magnitude} (hm : m.mant ≠ 0) :
    ofDecimal? m.shortest.digits m.shortest.power = some m := by
  rw [shortest, if_neg hm]
  exact ofDecimal?_shortestFrom hm _ _ _

theorem digits_shortest_ne_zero {m : Magnitude} (hm : m.mant ≠ 0) : m.shortest.digits ≠ 0 := by
  intro hzero
  have h := ofDecimal?_shortest hm
  rw [hzero] at h
  unfold ofDecimal? at h
  rw [if_pos rfl] at h
  exact hm (congrArg mant (Option.some.inj h)).symm

theorem eq_zero_of_mant {m : Magnitude} (hm : m.mant = 0) : m = zero := by
  obtain ⟨mant, exp, hlt, hle, hcan⟩ := m
  cases hm
  rcases hcan with h | h
  · exact absurd h (by decide)
  · cases h
    rfl

end Magnitude

end RouteCatalog
