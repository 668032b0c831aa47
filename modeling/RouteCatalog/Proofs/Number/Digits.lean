import Mathlib.Data.List.Basic
import Mathlib.Data.List.TakeWhile
import RouteCatalog.Json.Token

/-!
# Decimal digits and their value

The digits of a natural number, the number that digits denote, and the zeros at either end. A
numeral without zeros at its front is read back digit by digit; zeros at its end are a power of ten,
which is what lets a shortened significand be compared with the number it was taken from.
-/

namespace RouteCatalog

/-! ## Characters -/

@[simp] theorem CodePoint.toNat_ofChar (c : Char) : (CodePoint.ofChar c).toNat = c.toNat := rfl

theorem CodePoint.ofChar_injective {a b : Char} (h : CodePoint.ofChar a = CodePoint.ofChar b) :
    a = b := by
  have hab : a.toNat = b.toNat := congrArg CodePoint.toNat h
  exact Char.toNat_inj.mp hab

@[simp] theorem CodePoint.ofChar_inj {a b : Char} :
    CodePoint.ofChar a = CodePoint.ofChar b ↔ a = b :=
  ⟨CodePoint.ofChar_injective, fun h ↦ by rw [h]⟩

theorem CodePoint.isAsciiDigit_ofChar {c : Char} (h : c.isDigit = true) :
    (CodePoint.ofChar c).isAsciiDigit = true := by
  simp only [Char.isDigit, Bool.and_eq_true, decide_eq_true_eq, UInt32.le_iff_toNat_le] at h
  simp only [CodePoint.isAsciiDigit, CodePoint.between, Bool.and_eq_true, decide_eq_true_eq]
  exact h

/-! ## Digits of a number -/

namespace Numeral

/-- The characters are decimal digits. -/
def AllDigits (cs : List Char) : Prop := ∀ c ∈ cs, c.isDigit = true

theorem allDigits_toDigits (n : Nat) : AllDigits (Nat.toDigits 10 n) := fun _ hc ↦
  Nat.isDigit_of_mem_toDigits (by decide) (by decide) hc

theorem allDigits_replicate (k : Nat) : AllDigits (List.replicate k '0') := by
  intro c hc
  rw [List.eq_of_mem_replicate hc]
  rfl

theorem AllDigits.append {a b : List Char} (ha : AllDigits a) (hb : AllDigits b) :
    AllDigits (a ++ b) := by
  intro c hc
  rcases List.mem_append.mp hc with h | h
  · exact ha c h
  · exact hb c h

theorem AllDigits.isAsciiDigit {cs : List Char} (h : AllDigits cs) :
    ∀ c ∈ cs.map CodePoint.ofChar, c.isAsciiDigit = true := by
  intro c hc
  obtain ⟨d, hd, rfl⟩ := List.mem_map.mp hc
  exact CodePoint.isAsciiDigit_ofChar (h d hd)

theorem head?_toDigits_ne_zero {n : Nat} (hn : 0 < n) :
    (Nat.toDigits 10 n).head? ≠ some '0' := by
  -- The first digit is that of a tenth of the number, down to a single digit.
  induction n using Nat.strongRecOn with
  | ind n ih =>
    by_cases h : n < 10
    · rw [Nat.toDigits_of_lt_base h, List.head?_cons]
      intro hzero
      have hval := Nat.toNat_digitChar_sub_48_of_lt_ten h
      rw [Option.some.inj hzero] at hval
      have : n = 0 := hval.symm
      omega
    · rw [Nat.toDigits_of_base_le (by decide) (by omega),
        List.head?_append_of_ne_nil _ Nat.toDigits_ne_nil]
      exact ih (n / 10) (by omega) (by omega)

theorem toDigits_mul_pow {n : Nat} (hn : 0 < n) (k : Nat) :
    Nat.toDigits 10 (n * Nat.pow 10 k) = Nat.toDigits 10 n ++ List.replicate k '0' := by
  induction k with
  | zero => simp
  | succ k ih =>
    have hpos : 0 < n * Nat.pow 10 k := Nat.mul_pos hn (Nat.pow_pos (by decide))
    have hsplit : n * Nat.pow 10 (k + 1) = 10 * (n * Nat.pow 10 k) + 0 := by
      rw [Nat.pow_eq, Nat.pow_succ, ← Nat.pow_eq, Nat.add_zero, Nat.mul_comm 10, Nat.mul_assoc]
    rw [hsplit, ← Nat.toDigits_append_toDigits (by decide) hpos (by decide), ih,
      Nat.toDigits_zero, List.replicate_succ', List.append_assoc]

theorem length_toDigits_mul_pow {n : Nat} (hn : 0 < n) (k : Nat) :
    (Nat.toDigits 10 (n * Nat.pow 10 k)).length = (Nat.toDigits 10 n).length + k := by
  rw [toDigits_mul_pow hn, List.length_append, List.length_replicate]

/-- A number has more than `k` digits exactly when it reaches `10 ^ k`. -/
theorem lt_length_toDigits_iff {n k : Nat} (hk : 0 < k) :
    k < (Nat.toDigits 10 n).length ↔ Nat.pow 10 k ≤ n := by
  rw [← Nat.not_le, Nat.length_toDigits_le_iff (by decide) hk, Nat.not_lt, Nat.pow_eq]

theorem length_toDigits_le {n k : Nat} (hk : 0 < k) (h : n < Nat.pow 10 k) :
    (Nat.toDigits 10 n).length ≤ k := by
  rwa [← Nat.not_lt, lt_length_toDigits_iff hk, Nat.not_le]

end Numeral

/-! ## The value of digits -/

namespace Json.Token

theorem digitsValue_map_ofChar (cs : List Char) :
    digitsValue (cs.map CodePoint.ofChar) = Nat.ofDigitChars 10 cs 0 := by
  rw [digitsValue, Numeral.value, List.map_map, List.foldl_map, Nat.ofDigitChars_eq_foldl]
  rfl

@[simp] theorem digitsValue_ofNat (n : Nat) : digitsValue (Text.ofNat n) = n := by
  rw [Text.ofNat, digitsValue_map_ofChar, Nat.ofDigitChars_ten_toDigits]

private theorem foldl_digits_lt {ds : List Nat} (h : ∀ d ∈ ds, d < 10) (n : Nat) :
    ds.foldl (fun n d ↦ 10 * n + d) n < (n + 1) * Nat.pow 10 ds.length := by
  induction ds generalizing n with
  | nil => exact Nat.lt_succ_of_le (Nat.mul_one n).ge
  | cons d ds ih =>
    obtain ⟨hd, hds⟩ := List.forall_mem_cons.mp h
    have hpow : Nat.pow 10 (d :: ds).length = Nat.pow 10 ds.length * 10 := rfl
    rw [List.foldl_cons, hpow]
    refine (ih hds (10 * n + d)).trans_le ?_
    rw [Nat.mul_comm (Nat.pow 10 ds.length), ← Nat.mul_assoc]
    exact Nat.mul_le_mul_right _ (by omega)

/-- Digits denote a number below the power of ten that has one digit more. -/
theorem digitsValue_lt {digits : Text} (h : ∀ c ∈ digits, c.isAsciiDigit = true) :
    digitsValue digits < Nat.pow 10 digits.length := by
  have hvalues : ∀ d ∈ digits.map fun c ↦ c.toNat - 0x30, d < 10 := by
    intro d hd
    obtain ⟨c, hc, rfl⟩ := List.mem_map.mp hd
    have hdigit := h c hc
    simp only [CodePoint.isAsciiDigit, CodePoint.between, Bool.and_eq_true,
      decide_eq_true_eq] at hdigit
    omega
  have hlt := foldl_digits_lt hvalues 0
  rwa [Nat.zero_add, Nat.one_mul, List.length_map] at hlt

theorem digitsValue_append (a b : List Char) :
    digitsValue ((a ++ b).map CodePoint.ofChar) =
      Nat.pow 10 b.length * digitsValue (a.map CodePoint.ofChar) +
        digitsValue (b.map CodePoint.ofChar) := by
  rw [digitsValue_map_ofChar, digitsValue_map_ofChar, digitsValue_map_ofChar,
    Nat.ofDigitChars_append, Nat.ofDigitChars_eq_ofDigitChars_zero]
  rfl

theorem digitsValue_replicate (k : Nat) :
    digitsValue ((List.replicate k '0').map CodePoint.ofChar) = 0 := by
  rw [digitsValue_map_ofChar, Nat.ofDigitChars_replicate_zero, Nat.mul_zero]

theorem digitsValue_append_zeros (a : List Char) (k : Nat) :
    digitsValue ((a ++ List.replicate k '0').map CodePoint.ofChar) =
      digitsValue (a.map CodePoint.ofChar) * Nat.pow 10 k := by
  rw [digitsValue_append, digitsValue_replicate, List.length_replicate, Nat.add_zero, Nat.mul_comm]

theorem digitsValue_zeros_append (k : Nat) (a : List Char) :
    digitsValue ((List.replicate k '0' ++ a).map CodePoint.ofChar) =
      digitsValue (a.map CodePoint.ofChar) := by
  rw [digitsValue_append, digitsValue_replicate, Nat.mul_zero, Nat.zero_add]

end Json.Token

theorem Text.ofNat_injective {m n : Nat} (h : Text.ofNat m = Text.ofNat n) : m = n := by
  rw [← Json.Token.digitsValue_ofNat m, h, Json.Token.digitsValue_ofNat]

private theorem Text.ofNat_ne_minus (n : Nat) (t : Text) :
    Text.ofNat n ≠ CodePoint.ofChar '-' :: t := by
  intro h
  have hall := (Numeral.allDigits_toDigits n).isAsciiDigit
  have hminus := hall (CodePoint.ofChar '-') (by rw [← Text.ofNat, h]; exact List.mem_cons_self)
  exact absurd hminus (by decide)

theorem Text.ofInt_injective {i j : Int} (h : Text.ofInt i = Text.ofInt j) : i = j := by
  cases i with
  | ofNat m =>
    cases j with
    | ofNat n => rw [Text.ofNat_injective h]
    | negSucc n => exact absurd h (Text.ofNat_ne_minus m _)
  | negSucc m =>
    cases j with
    | ofNat n => exact absurd h.symm (Text.ofNat_ne_minus n _)
    | negSucc n => rw [Nat.succ.inj (Text.ofNat_injective (List.cons.inj h).2)]

/-! ## Zeros at the end -/

theorem Binary64.exists_eq_dropZeros_append (digits : List Char) :
    ∃ k, digits = Binary64.dropZeros digits ++ List.replicate k '0' := by
  refine ⟨(digits.reverse.takeWhile (· = '0')).length, ?_⟩
  have hzeros : digits.reverse.takeWhile (· = '0') =
      List.replicate (digits.reverse.takeWhile (· = '0')).length '0' := by
    refine List.eq_replicate_of_mem fun c hc ↦ ?_
    simpa using List.mem_takeWhile_imp hc
  have hsplit := List.takeWhile_append_dropWhile (p := fun c ↦ decide (c = '0'))
    (l := digits.reverse)
  rw [Binary64.dropZeros, ← List.reverse_inj, List.reverse_append, List.reverse_reverse,
    List.reverse_replicate, ← hzeros, hsplit]

end RouteCatalog
