import RouteCatalog.Proofs.Number.Numeral
import RouteCatalog.Proofs.Text.Truncated
import RouteCatalog.Proofs.Yaml.Mapping

/-!
# Strings, truth values and integers as fields

A string is quoted wherever its form has another tag, so every string may be the value of a field.
The words for truth and falsity and the decimal numerals have no need of quotes: their forms have
the tags of their values, and nothing in them looks like more than a scalar (`Field.ofText`,
`Field.ofBool`, `Field.ofInt`).
-/

namespace RouteCatalog

namespace Text

theorem splitOn_of_not_mem {c : CodePoint} {t : Text} (h : c ∉ t) : t.splitOn c = [t] := by
  induction t with
  | nil => rfl
  | cons d t ih =>
    obtain ⟨hd, ht⟩ := List.ne_and_not_mem_of_not_mem_cons h
    rw [splitOn, List.foldr_cons, ← splitOn, ih ht, if_neg (Ne.symm hd)]

/-! ## The characters of numerals -/

theorem isAsciiDigit_ofNat (n : Nat) : ∀ c ∈ ofNat n, c.isAsciiDigit = true :=
  (Numeral.allDigits_toDigits n).isAsciiDigit

theorem exists_cons_ofNat {n : Nat} (hn : 0 < n) :
    ∃ c t, ofNat n = c :: t ∧ CodePoint.ofChar '0' ≠ c := by
  have hhead := Numeral.head?_toDigits_ne_zero hn
  rw [ofNat]
  cases hdigits : Nat.toDigits 10 n with
  | nil => exact absurd hdigits Nat.toDigits_ne_nil
  | cons d ds =>
    rw [hdigits] at hhead
    refine ⟨_, _, rfl, fun h ↦ hhead ?_⟩
    rw [List.head?_cons, CodePoint.ofChar_injective h]

theorem splitOn_ofNat (n : Nat) :
    (ofNat n).splitOn (CodePoint.ofChar ':') = [ofNat n] :=
  splitOn_of_not_mem fun hmem ↦ absurd (isAsciiDigit_ofNat n _ hmem) (by decide)

/-- A character of an integer. -/
def isIntChar (c : CodePoint) : Bool := c.isAsciiDigit || c = '-'

theorem isIntChar_ofInt (i : Int) : ∀ c ∈ ofInt i, isIntChar c = true := by
  have hnat (n : Nat) : ∀ c ∈ ofNat n, isIntChar c = true := fun c hc ↦ by
    rw [isIntChar, isAsciiDigit_ofNat n c hc, Bool.true_or]
  cases i with
  | ofNat n => exact hnat n
  | negSucc n => exact List.forall_mem_cons.mpr ⟨by decide, hnat (n + 1)⟩

theorem ofInt_ne_nil (i : Int) : ofInt i ≠ [] := by
  cases i with
  | ofNat n => exact ofNat_ne_nil n
  | negSucc n => exact List.cons_ne_nil _ _

theorem splitSign_ofInt (i : Int) :
    Numeral.splitSign (ofInt i) = (decide (i < 0), ofNat i.natAbs) := by
  cases i with
  | ofNat n =>
    have hpos : ¬ Int.ofNat n < 0 := Int.not_lt.mpr (Int.natCast_nonneg n)
    rw [ofInt, Numeral.splitSign_eq (isAsciiDigit_ofNat n), decide_eq_false hpos]
    rfl
  | negSucc n =>
    rw [decide_eq_true (Int.negSucc_lt_zero n)]
    rfl

end Text

namespace Yaml

/-! ## The form of an integer -/

theorem isNumeral_ofNat (n : Nat) : Tag.isNumeral (Text.ofNat n) = true := by
  have hdigits := Text.isAsciiDigit_ofNat n
  cases hn : Text.ofNat n with
  | nil => exact absurd hn (Text.ofNat_ne_nil n)
  | cons c t =>
    rw [hn] at hdigits
    obtain ⟨hc, ht⟩ := List.forall_mem_cons.mp hdigits
    rw [Tag.isNumeral, hc, Bool.true_and, List.all_eq_true]
    intro d hd
    rw [Tag.isDigitOrBar, ht d hd, Bool.true_or]

theorem isInt_ofInt (i : Int) : Tag.isInt (Text.ofInt i) = true := by
  rw [Tag.isInt, Text.splitSign_ofInt]
  dsimp only
  generalize i.natAbs = n
  rcases Nat.eq_zero_or_pos n with rfl | hn
  · decide
  · obtain ⟨c, t, hcons, hzero⟩ := Text.exists_cons_ofNat hn
    have hnone (literal : Text) :
        Text.dropLiteral? (CodePoint.ofChar '0' :: literal) (Text.ofNat n) = none := by
      rw [hcons]
      exact Text.dropLiteral?_cons_of_ne hzero literal t
    have hbinary : Text.dropLiteral? "0b" (Text.ofNat n) = none := hnone "b"
    have hhexadecimal : Text.dropLiteral? "0x" (Text.ofNat n) = none := hnone "x"
    have hoctal : Text.dropLiteral? "0" (Text.ofNat n) = none := hnone []
    rw [hbinary, hhexadecimal, hoctal]
    dsimp only
    rw [Tag.isSixties, Text.splitOn_ofNat]
    show (Tag.isNumeral (Text.ofNat n) && true) = true
    rw [isNumeral_ofNat, Bool.true_and]

theorem isFloat_ofInt (i : Int) : Tag.isFloat (Text.ofInt i) = false := by
  have hpoint : Text.breakAt? "." (Text.ofNat i.natAbs) = none := by
    rw [Text.breakAt?_eq_none_iff]
    intro hinfix
    have hmem : CodePoint.ofChar '.' ∈ Text.ofNat i.natAbs := hinfix.mem (by decide)
    exact absurd (Text.isAsciiDigit_ofNat _ _ hmem) (by decide)
  rw [Tag.isFloat, Text.splitSign_ofInt]
  dsimp only
  rw [hpoint]

theorem ofPlain_ofInt (i : Int) : Tag.ofPlain (Text.ofInt i) = .int := by
  have hchars := Text.isIntChar_ofInt i
  have hfeed : Timestamp.withoutLineFeed (Text.ofInt i) = Text.ofInt i := by
    rw [Timestamp.withoutLineFeed, if_neg]
    intro hlast
    exact absurd (hchars _ (List.mem_of_getLast? hlast)) (by decide)
  have hempty : (Text.ofInt i).isEmpty = false :=
    List.isEmpty_eq_false_iff.mpr (Text.ofInt_ne_nil i)
  have hword : Tag.truthWords.contains (Text.ofInt i) = false := by
    have hletters : ∀ w ∈ Tag.truthWords, ∃ c ∈ w, Text.isIntChar c = false := by decide
    rw [← Bool.not_eq_true, List.contains_iff_mem]
    intro hmem
    obtain ⟨c, hc, hletter⟩ := hletters _ hmem
    exact absurd (hletter.symm.trans (hchars c hc)) (by decide)
  rw [Tag.ofPlain, hfeed, hempty, if_neg Bool.false_ne_true, hword, if_neg Bool.false_ne_true,
    isFloat_ofInt, if_neg Bool.false_ne_true, isInt_ofInt, if_pos rfl]

/-- A digit starts nothing but a scalar, and neither does a minus before a digit. -/
theorem startsOdd_ofInt (i : Int) : Style.startsOdd (Text.ofInt i) = false := by
  have hdigit {c : CodePoint} (hc : c.isAsciiDigit = true) :
      CodePoint.ofChar '-' ≠ c ∧ CodePoint.ofChar '.' ≠ c ∧ Style.indicators.contains c = false ∧
        (c = '?' || c = ':' || c = '-') = false ∧ Token.endsWord (c :: []) = false := by
    have := CodePoint.of_isAsciiDigit (p := fun c ↦ CodePoint.ofChar '-' ≠ c &&
      (CodePoint.ofChar '.' ≠ c && (!Style.indicators.contains c &&
        (!(c = '?' || c = ':' || c = '-') && !Token.endsWord (c :: []))))) (by decide) hc
    simpa only [Bool.and_eq_true, decide_eq_true_eq, Bool.not_eq_true'] using this
  cases i with
  | ofNat n =>
    have hdigits := Text.isAsciiDigit_ofNat n
    rw [Text.ofInt]
    cases hn : Text.ofNat n with
    | nil => rfl
    | cons c t =>
      rw [hn] at hdigits
      obtain ⟨hdash, hdot, hindicator, hmark, -⟩ := hdigit (hdigits c List.mem_cons_self)
      have hdashes : Text.startsWith "---" (c :: t) = false :=
        Text.startsWith_cons_of_ne hdash _ _
      have hdots : Text.startsWith "..." (c :: t) = false := Text.startsWith_cons_of_ne hdot _ _
      rw [Style.startsOdd, hdashes, hdots, hindicator, hmark]
      rfl
  | negSucc n =>
    obtain ⟨c, t, hcons, -⟩ := Text.exists_cons_ofNat (Nat.succ_pos n)
    have hc := Text.isAsciiDigit_ofNat (n + 1) c (by rw [hcons]; exact List.mem_cons_self)
    obtain ⟨hdash, -, -, -, hends⟩ := hdigit hc
    have hdashes : Text.startsWith "---" (CodePoint.ofChar '-' :: c :: t) = false :=
      Text.startsWith_cons_of_ne hdash _ _
    have halone : Style.isAlone (c :: t) = false := hends
    rw [Text.ofInt, hcons, Style.startsOdd, hdashes, halone]
    rfl

theorem allowsPlain_ofInt (i : Int) : Style.allowsPlain (Text.ofInt i) = true := by
  refine Style.allowsPlain_of_isInk (fun c hc ↦ ?_) (startsOdd_ofInt i)
  have hchar := Text.isIntChar_ofInt i c hc
  rw [Text.isIntChar, Bool.or_eq_true, decide_eq_true_eq] at hchar
  rcases hchar with hdigit | rfl
  · exact CodePoint.of_isAsciiDigit (by decide) hdigit
  · decide

/-! ## The value of an integer -/

theorem magnitude_ofNat {n : Nat} (hn : (Text.ofNat n).length ≤ Numeral.maxDigits) :
    Scalar.magnitude (Text.ofNat n) = .ok (n : Int) := by
  rcases Nat.eq_zero_or_pos n with rfl | hpos
  · rfl
  · obtain ⟨c, t, hcons, hzero⟩ := Text.exists_cons_ofNat hpos
    have hsplit := Text.splitOn_ofNat n
    have hread := Numeral.readIn_ofNat hn
    have hbinary : Text.startsWith "0b" (c :: t) = false := Text.startsWith_cons_of_ne hzero _ _
    have hhexadecimal : Text.startsWith "0x" (c :: t) = false :=
      Text.startsWith_cons_of_ne hzero _ _
    have hne : c :: t ≠ Text.ofString "0" := fun h ↦ hzero (List.cons.inj h).1.symm
    rw [hcons] at hsplit hread ⊢
    rw [Scalar.magnitude]
    dsimp only
    rw [if_neg hne, hbinary, hhexadecimal, if_neg Bool.false_ne_true, if_neg Bool.false_ne_true,
      if_neg (Ne.symm hzero), hsplit, List.mapM_cons, List.mapM_nil, hread]
    show Except.ok ((n : Int) * (1 : Nat) + 0) = _
    rw [Int.natCast_one, Int.mul_one, Int.add_zero]

theorem integer_ofInt {i : Int} (hi : (Text.ofNat i.natAbs).length ≤ Numeral.maxDigits) :
    Scalar.integer (Text.ofInt i) = .ok i := by
  have hbars : Scalar.withoutBars (Text.ofInt i) = Text.ofInt i := by
    rw [Scalar.withoutBars, List.filter_eq_self]
    intro c hc
    refine decide_eq_true ?_
    rintro rfl
    exact absurd (Text.isIntChar_ofInt i _ hc) (by decide)
  have hempty : (Text.ofInt i).isEmpty = false :=
    List.isEmpty_eq_false_iff.mpr (Text.ofInt_ne_nil i)
  rw [Scalar.integer, hbars]
  dsimp only
  rw [hempty, if_neg Bool.false_ne_true, Text.splitSign_ofInt]
  dsimp only
  rw [magnitude_ofNat hi]
  refine congrArg Except.ok ?_
  by_cases hneg : i < 0
  · rw [decide_eq_true hneg]
    show -(i.natAbs : Int) = i
    omega
  · rw [decide_eq_false hneg]
    show (i.natAbs : Int) = i
    omega

/-! ## Fields -/

namespace Field

variable {name : Text} (h : IsName name)

/-- A name with a string. -/
def ofText (t : Text) : Field where
  name := name
  value := .str t
  tag := .str
  text := t
  isName := h
  form := rfl
  meaning := rfl
  quoted _ := rfl

/-- A name with a truth value. -/
def ofBool (b : Bool) : Field where
  name := name
  value := .bool b
  tag := .bool
  text := if b then "true" else "false"
  isName := h
  form := rfl
  meaning := by
    cases b with
    | false => rfl
    | true => rfl
  quoted hchoice := by
    cases b with
    | false => exact absurd (by decide) hchoice
    | true => exact absurd (by decide) hchoice

/-- A name with an integer. -/
def ofInt {i : Int} (hi : (Text.ofNat i.natAbs).length ≤ Numeral.maxDigits) : Field where
  name := name
  value := .int i
  tag := .int
  text := Text.ofInt i
  isName := h
  form := rfl
  meaning := by
    rw [ofScalar, integer_ofInt hi]
    rfl
  quoted hchoice := by
    refine absurd ?_ hchoice
    rw [ofPlain_ofInt, Style.choose, allowsPlain_ofInt]
    rfl

end Field

end Yaml

end RouteCatalog
