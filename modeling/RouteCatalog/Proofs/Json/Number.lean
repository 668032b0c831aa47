import RouteCatalog.Json.Writer
import RouteCatalog.Proofs.Number.ReadBack

/-!
# Written numbers are read

The text of a number, followed by whatever may follow a value, is one token. A finite number is read
in each of the four layouts of its digits (`unsigned?_layout`) and gives the number; an integer
gives itself, or a fault when it has too many digits.
-/

namespace RouteCatalog

/-- What may stand after a written value: the end of the text, a comma, a closing bracket or a new
line. In particular a number does not go on there. -/
def Text.EndsValue (rest : Text) : Prop :=
  ∀ c ∈ rest.head?, c = ',' ∨ c = ']' ∨ c = '}' ∨ c = '\n'

namespace Text.EndsValue

theorem nil : EndsValue [] := by simp [EndsValue]

theorem cons {c : Char} (hc : c = ',' ∨ c = ']' ∨ c = '}' ∨ c = '\n') (t : Text) :
    EndsValue (CodePoint.ofChar c :: t) := by
  intro d hd
  cases hd
  simpa using hc

/-- A fact about the four characters is one about the character that follows a value. -/
theorem head {rest : Text} (h : EndsValue rest) (p : CodePoint → Prop)
    (hcomma : p ',') (hbracket : p ']') (hbrace : p '}') (hline : p '\n') :
    ∀ c ∈ rest.head?, p c := by
  intro c hc
  rcases h c hc with rfl | rfl | rfl | rfl
  · exact hcomma
  · exact hbracket
  · exact hbrace
  · exact hline

end Text.EndsValue

namespace Json.Token

open Text (EndsValue)

/-! ## Digits in front -/

/-- No digit stands in front. -/
def NoDigit (rest : Text) : Prop := ∀ c ∈ rest.head?, c.isAsciiDigit = false

theorem noDigit_ofChar {c : Char} (h : (CodePoint.ofChar c).isAsciiDigit = false) (t : Text) :
    NoDigit (CodePoint.ofChar c :: t) := by
  intro d hd
  cases hd
  exact h

theorem noDigit_of_endsValue {rest : Text} (h : EndsValue rest) : NoDigit rest :=
  h.head _ (by decide) (by decide) (by decide) (by decide)

theorem spanDigits_append {ds rest : Text} (hds : ∀ c ∈ ds, c.isAsciiDigit = true)
    (hrest : NoDigit rest) : spanDigits (ds ++ rest) = (ds, rest) := by
  have htake : rest.takeWhile CodePoint.isAsciiDigit = [] := by
    cases rest with
    | nil => rfl
    | cons c t => exact List.takeWhile_cons_of_neg (by simp [hrest c rfl])
  have hdrop : rest.dropWhile CodePoint.isAsciiDigit = rest := by
    cases rest with
    | nil => rfl
    | cons c t => exact List.dropWhile_cons_of_neg (by simp [hrest c rfl])
  rw [spanDigits, List.takeWhile_append_of_pos hds, List.dropWhile_append_of_pos hds, htake, hdrop,
    List.append_nil]

/-- Digits that may stand as a whole part: they do not start with a zero. -/
structure Leading (ds : List Char) : Prop where
  digits : Numeral.AllDigits ds
  ne_nil : ds ≠ []
  head : ds.head? ≠ some '0'

theorem leading_toDigits {n : Nat} (hn : 0 < n) : Leading (Nat.toDigits 10 n) :=
  ⟨Numeral.allDigits_toDigits n, Nat.toDigits_ne_nil, Numeral.head?_toDigits_ne_zero hn⟩

theorem Leading.exists_cons {ds : List Char} (h : Leading ds) :
    ∃ d more, ds = d :: more ∧ d.isDigit = true ∧ d ≠ '0' ∧ Numeral.AllDigits more := by
  cases ds with
  | nil => exact absurd rfl h.ne_nil
  | cons d more =>
    refine ⟨d, more, rfl, h.digits d List.mem_cons_self, ?_, fun c hc ↦
      h.digits c (List.mem_cons_of_mem d hc)⟩
    rintro rfl
    exact h.head rfl

/-! ## Parts of a number -/

theorem whole?_zero (rest : Text) :
    whole? (CodePoint.ofChar '0' :: rest) = some ([CodePoint.ofChar '0'], rest) := rfl

theorem whole?_append {ds : List Char} (hds : Leading ds) {rest : Text} (hrest : NoDigit rest) :
    whole? (ds.map CodePoint.ofChar ++ rest) = some (ds.map CodePoint.ofChar, rest) := by
  obtain ⟨d, more, rfl, hd, hne, hmore⟩ := hds.exists_cons
  have hzero : CodePoint.ofChar d ≠ '0' := fun h ↦ hne (CodePoint.ofChar_injective h)
  rw [List.map_cons, List.cons_append, whole?, if_neg hzero,
    if_pos (CodePoint.isAsciiDigit_ofChar hd), spanDigits_append hmore.isAsciiDigit hrest]

theorem fraction_of_ne {rest : Text} (h : ∀ c ∈ rest.head?, c ≠ '.') :
    fraction rest = ([], rest) := by
  cases rest with
  | nil => rfl
  | cons c t =>
    rw [fraction, if_neg]
    simp [h c rfl]

theorem fraction_append {ds : List Char} (hds : Numeral.AllDigits ds) (hne : ds ≠ []) {rest : Text}
    (hrest : NoDigit rest) :
    fraction (CodePoint.ofChar '.' :: (ds.map CodePoint.ofChar ++ rest)) =
      (ds.map CodePoint.ofChar, rest) := by
  have hspan := spanDigits_append hds.isAsciiDigit hrest
  rw [fraction, if_pos, hspan]
  rw [hspan]
  simp [hne]

theorem exponent?_of_ne {rest : Text} (h : ∀ c ∈ rest.head?, c ≠ 'e' ∧ c ≠ 'E') :
    exponent? rest = none := by
  cases rest with
  | nil => rfl
  | cons c t =>
    rw [exponent?, if_neg]
    simp [h c rfl]

theorem exponent?_append {ds : List Char} (hds : Numeral.AllDigits ds) (hne : ds ≠ [])
    (negative : Bool) {rest : Text} (hrest : NoDigit rest) :
    exponent? (CodePoint.ofChar 'e' :: CodePoint.ofChar (if negative then '-' else '+') ::
        (ds.map CodePoint.ofChar ++ rest)) =
      some (if negative then -(digitsValue (ds.map CodePoint.ofChar) : Int)
        else digitsValue (ds.map CodePoint.ofChar), rest) := by
  have hspan := spanDigits_append hds.isAsciiDigit hrest
  cases negative <;>
    simp [exponent?, Numeral.splitSign, hspan, hne, CodePoint.ofChar_inj]

/-! ## The four layouts -/

theorem ofDecimal_mul_pow (negative : Bool) (n k : Nat) (power : Int) :
    Binary64.ofDecimal negative (n * Nat.pow 10 k) power =
      Binary64.ofDecimal negative n (power + k) := by
  rw [Binary64.ofDecimal, Binary64.ofDecimal, Magnitude.ofDecimal?_mul_pow]

private theorem unsigned?_of_fraction (negative : Bool) {t t' whole frac rest : Text}
    (hwhole : whole? t = some (whole, t')) (hfrac : fraction t' = (frac, rest)) (hne : frac ≠ [])
    (hrest : EndsValue rest) :
    unsigned? negative t = some (.scalar (.float (.ofDecimal negative
      (digitsValue (whole ++ frac)) (-(frac.length : Int)))), rest) := by
  have hexp : exponent? rest = none := exponent?_of_ne
    (hrest.head _ (by decide) (by decide) (by decide) (by decide))
  have hempty : frac.isEmpty = false := by simp [hne]
  simp only [unsigned?, hwhole, Option.map_some, hfrac, hempty, hexp]

private theorem unsigned?_of_exponent {negative : Bool} {t t' t'' whole frac rest : Text} {e : Int}
    (hwhole : whole? t = some (whole, t')) (hfrac : fraction t' = (frac, t''))
    (hexp : exponent? t'' = some (e, rest)) :
    unsigned? negative t = some (.scalar (.float (.ofDecimal negative
      (digitsValue (whole ++ frac)) (e - (frac.length : Int)))), rest) := by
  simp only [unsigned?, hwhole, Option.map_some, hfrac, hexp]

variable {ds : List Char} {rest : Text}

private theorem unsigned?_small (negative : Bool) (hds : Leading ds) (k : Nat)
    (hrest : EndsValue rest) :
    unsigned? negative
        (('0' :: '.' :: (List.replicate k '0' ++ ds)).map CodePoint.ofChar ++ rest) =
      some (.scalar (.float (.ofDecimal negative (digitsValue (ds.map CodePoint.ofChar))
        (-(k : Int) - ds.length))), rest) := by
  have hdigits := (Numeral.allDigits_replicate k).append hds.digits
  have hne : List.replicate k '0' ++ ds ≠ [] := by simp [hds.ne_nil]
  have hvalue : digitsValue ([CodePoint.ofChar '0'] ++
      (List.replicate k '0' ++ ds).map CodePoint.ofChar) =
        digitsValue (ds.map CodePoint.ofChar) := by
    have h := digitsValue_zeros_append (k + 1) ds
    rwa [List.replicate_succ, List.cons_append, List.map_cons] at h
  rw [List.map_cons, List.map_cons, List.cons_append, List.cons_append,
    unsigned?_of_fraction negative (whole?_zero _)
      (fraction_append hdigits hne (noDigit_of_endsValue hrest)) (by simp [hds.ne_nil]) hrest,
    hvalue]
  rw [List.length_map, List.length_append, List.length_replicate,
    show -((k + ds.length : Nat) : Int) = -(k : Int) - ds.length from by omega]

private theorem unsigned?_whole (negative : Bool) (hds : Leading ds) (k : Nat)
    (hrest : EndsValue rest) :
    unsigned? negative
        ((ds ++ List.replicate k '0' ++ ['.', '0']).map CodePoint.ofChar ++ rest) =
      some (.scalar (.float (.ofDecimal negative (digitsValue (ds.map CodePoint.ofChar)) k)),
        rest) := by
  have hlead : Leading (ds ++ List.replicate k '0') := by
    refine ⟨hds.digits.append (Numeral.allDigits_replicate k), by simp [hds.ne_nil], ?_⟩
    rw [List.head?_append_of_ne_nil _ hds.ne_nil]
    exact hds.head
  have hfrac : fraction (CodePoint.ofChar '.' :: (['0'].map CodePoint.ofChar ++ rest)) =
      (['0'].map CodePoint.ofChar, rest) :=
    fraction_append (Numeral.allDigits_replicate 1) (by decide) (noDigit_of_endsValue hrest)
  -- The zero behind the point is one more digit, which the exponent takes back.
  have hvalue : digitsValue ((ds ++ List.replicate k '0').map CodePoint.ofChar ++
      ['0'].map CodePoint.ofChar) =
        digitsValue (ds.map CodePoint.ofChar) * Nat.pow 10 (k + 1) := by
    rw [← digitsValue_append_zeros, List.replicate_succ', ← List.append_assoc, ← List.map_append]
  have happ : (ds ++ List.replicate k '0' ++ ['.', '0']).map CodePoint.ofChar ++ rest =
      (ds ++ List.replicate k '0').map CodePoint.ofChar ++
        (CodePoint.ofChar '.' :: (['0'].map CodePoint.ofChar ++ rest)) := by
    simp
  rw [happ, unsigned?_of_fraction negative (whole?_append hlead (noDigit_ofChar (by decide) _))
    hfrac (by simp) hrest, hvalue, ofDecimal_mul_pow]
  rw [List.length_map, List.length_singleton,
    show -((1 : Nat) : Int) + ((k + 1 : Nat) : Int) = k from by omega]

private theorem unsigned?_split (negative : Bool) (hds : Leading ds) {k : Nat} (hk : 0 < k)
    (hlen : k < ds.length) (hrest : EndsValue rest) :
    unsigned? negative ((ds.take k ++ '.' :: ds.drop k).map CodePoint.ofChar ++ rest) =
      some (.scalar (.float (.ofDecimal negative (digitsValue (ds.map CodePoint.ofChar))
        ((k : Int) - ds.length))), rest) := by
  have hlead : Leading (ds.take k) := by
    refine ⟨fun c hc ↦ hds.digits c (List.mem_of_mem_take hc), ?_, ?_⟩
    · rw [← List.length_pos_iff, List.length_take]
      omega
    · rw [List.head?_take, if_neg (by omega)]
      exact hds.head
  have hne : ds.drop k ≠ [] := by
    rw [← List.length_pos_iff, List.length_drop]
    omega
  have happ : (ds.take k ++ '.' :: ds.drop k).map CodePoint.ofChar ++ rest =
      (ds.take k).map CodePoint.ofChar ++
        (CodePoint.ofChar '.' :: ((ds.drop k).map CodePoint.ofChar ++ rest)) := by
    simp
  have hdigits : Numeral.AllDigits (ds.drop k) := fun c hc ↦
    hds.digits c (List.mem_of_mem_drop hc)
  rw [happ, unsigned?_of_fraction negative (whole?_append hlead (noDigit_ofChar (by decide) _))
    (fraction_append hdigits hne (noDigit_of_endsValue hrest)) (by simpa using hne) hrest,
    ← List.map_append, List.take_append_drop]
  rw [List.length_map, List.length_drop,
    show -((ds.length - k : Nat) : Int) = (k : Int) - ds.length from by omega]

/-- The digits of an exponent; there are at least two. -/
private def exponentDigits (e : Int) : List Char :=
  if (Nat.toDigits 10 e.natAbs).length < 2 then '0' :: Nat.toDigits 10 e.natAbs
  else Nat.toDigits 10 e.natAbs

private theorem exponent?_exponentDigits (e : Int) (hrest : EndsValue rest) :
    exponent? (CodePoint.ofChar 'e' :: CodePoint.ofChar (if e < 0 then '-' else '+') ::
        ((exponentDigits e).map CodePoint.ofChar ++ rest)) = some (e, rest) := by
  have hvalue : digitsValue ((exponentDigits e).map CodePoint.ofChar) = e.natAbs := by
    have h : digitsValue ((Nat.toDigits 10 e.natAbs).map CodePoint.ofChar) = e.natAbs :=
      digitsValue_ofNat e.natAbs
    rw [exponentDigits]
    split
    · exact (digitsValue_zeros_append 1 _).trans h
    · exact h
  have hdigits : Numeral.AllDigits (exponentDigits e) := by
    rw [exponentDigits]
    split
    · exact (Numeral.allDigits_replicate 1).append (Numeral.allDigits_toDigits _)
    · exact Numeral.allDigits_toDigits _
  have hne : exponentDigits e ≠ [] := by
    rw [exponentDigits]
    split
    · simp
    · exact Nat.toDigits_ne_nil
  have hread := exponent?_append hdigits hne (decide (e < 0)) (noDigit_of_endsValue hrest)
  rw [hvalue] at hread
  by_cases he : e < 0
  · simp only [he, decide_true, if_true] at hread ⊢
    rw [hread, show -(e.natAbs : Int) = e from by omega]
  · simp only [he, decide_false, Bool.false_eq_true, if_false] at hread ⊢
    rw [hread, show (e.natAbs : Int) = e from by omega]

private theorem unsigned?_scientific (negative : Bool) {d : Char} {more : List Char}
    (hds : Leading (d :: more)) (e : Int) (hrest : EndsValue rest) :
    unsigned? negative ((((if more = [] then [d] else d :: '.' :: more) ++ 'e' ::
        (if e < 0 then '-' else '+') :: exponentDigits e).map CodePoint.ofChar) ++ rest) =
      some (.scalar (.float (.ofDecimal negative (digitsValue ((d :: more).map CodePoint.ofChar))
        (e - more.length))), rest) := by
  have hlead : Leading [d] := by
    obtain ⟨d', more', heq, hd, hzero, -⟩ := hds.exists_cons
    cases heq
    exact ⟨fun c hc ↦ by rwa [List.mem_singleton.mp hc], by simp, by simpa using hzero⟩
  have hmore : Numeral.AllDigits more := fun c hc ↦ hds.digits c (List.mem_cons_of_mem d hc)
  have hexp := exponent?_exponentDigits e hrest
  by_cases hnil : more = []
  · subst hnil
    have happ : (([d] ++ 'e' :: (if e < 0 then '-' else '+') :: exponentDigits e).map
        CodePoint.ofChar) ++ rest = [d].map CodePoint.ofChar ++ (CodePoint.ofChar 'e' ::
          CodePoint.ofChar (if e < 0 then '-' else '+') ::
            ((exponentDigits e).map CodePoint.ofChar ++ rest)) := by
      simp
    rw [if_pos rfl, happ, unsigned?_of_exponent
      (whole?_append hlead (noDigit_ofChar (by decide) _)) (fraction_of_ne (by simp)) hexp]
    simp
  · have happ : ((d :: '.' :: more ++ 'e' :: (if e < 0 then '-' else '+') ::
        exponentDigits e).map CodePoint.ofChar) ++ rest =
          [d].map CodePoint.ofChar ++ (CodePoint.ofChar '.' :: (more.map CodePoint.ofChar ++
            (CodePoint.ofChar 'e' :: CodePoint.ofChar (if e < 0 then '-' else '+') ::
              ((exponentDigits e).map CodePoint.ofChar ++ rest)))) := by
      simp
    rw [if_neg hnil, happ, unsigned?_of_exponent
      (whole?_append hlead (noDigit_ofChar (by decide) _))
      (fraction_append hmore hnil (noDigit_ofChar (by decide) _)) hexp]
    simp

/-- **Every layout is read.** The significand is that of the digits, and the exponent is counted
from the place of the point. -/
theorem unsigned?_layout (negative : Bool) (hds : Leading ds) (point : Int)
    (hrest : EndsValue rest) :
    unsigned? negative ((Binary64.layout ds point).map CodePoint.ofChar ++ rest) =
      some (.scalar (.float (.ofDecimal negative (digitsValue (ds.map CodePoint.ofChar))
        (point - ds.length))), rest) := by
  -- The point stands before the digits, behind them or among them; else there is an exponent.
  unfold Binary64.layout
  split
  · split
    · have h := unsigned?_small negative hds (-point).toNat hrest
      rwa [show -((-point).toNat : Int) = point from by omega] at h
    · dsimp only
      split
      · have h := unsigned?_whole negative hds (point.toNat - ds.length) hrest
        rwa [show ((point.toNat - ds.length : Nat) : Int) = point - ds.length from by omega] at h
      · have h := unsigned?_split negative hds (k := point.toNat) (by omega) (by omega) hrest
        rwa [show (point.toNat : Int) = point from by omega] at h
  · obtain ⟨d, more, rfl, -⟩ := hds.exists_cons
    have h := unsigned?_scientific negative hds (point - 1) hrest
    rw [show point - 1 - (more.length : Int) = point - ((d :: more).length : Int) from by
      rw [List.length_cons]
      omega] at h
    cases more with
    | nil => exact h
    | cons c more => exact h

/-! ## Numbers -/

theorem number?_of_unsigned? {t : Text} {found : Token × Text}
    (h : unsigned? false t = some found) :
    number? t = some found := by
  cases t with
  | nil => cases h
  | cons c t =>
    have hc : c ≠ '-' := by
      rintro rfl
      cases h
    have hminus : Text.startsWith "-" (c :: t) = false := by
      have hliteral : Text.ofString "-" = [CodePoint.ofChar '-'] := rfl
      rw [Text.startsWith, hliteral, Text.dropLiteral?, if_neg (Ne.symm hc)]
      rfl
    rw [number?, hminus]
    exact h

theorem leading_dropZeros {n : Nat} (hn : 0 < n) :
    Leading (Binary64.dropZeros (Nat.toDigits 10 n)) := by
  obtain ⟨k, hk⟩ := Binary64.exists_eq_dropZeros_append (Nat.toDigits 10 n)
  have hall := leading_toDigits hn
  generalize Binary64.dropZeros (Nat.toDigits 10 n) = ds at hk ⊢
  rw [hk] at hall
  have hne : ds ≠ [] := by
    rintro rfl
    cases k with
    | zero => exact hall.ne_nil rfl
    | succ k => exact hall.head rfl
  refine ⟨fun c hc ↦ hall.digits c (List.mem_append_left _ hc), hne, ?_⟩
  have hhead := hall.head
  rwa [List.head?_append_of_ne_nil _ hne] at hhead

/-- What a magnitude's text reads as, whatever the sign. -/
private theorem unsigned?_magnitudeText (negative : Bool) (m : Magnitude)
    (hrest : EndsValue rest) :
    unsigned? negative ((Binary64.magnitudeText m).map CodePoint.ofChar ++ rest) =
      some (.scalar (.float (.finite negative m)), rest) := by
  by_cases hm : m.mant = 0
  · have h := unsigned?_of_fraction negative
      (whole?_zero (CodePoint.ofChar '.' :: (['0'].map CodePoint.ofChar ++ rest)))
      (fraction_append (Numeral.allDigits_replicate 1) (by decide) (noDigit_of_endsValue hrest))
      (by simp) hrest
    rw [Binary64.magnitudeText, if_pos hm, Magnitude.eq_zero_of_mant hm]
    exact h
  · have hpos := Nat.pos_of_ne_zero (Magnitude.digits_shortest_ne_zero hm)
    obtain ⟨k, hk⟩ := Binary64.exists_eq_dropZeros_append (Nat.toDigits 10 m.shortest.digits)
    have hlead := leading_dropZeros hpos
    rw [Binary64.magnitudeText, if_neg hm]
    dsimp only
    generalize Binary64.dropZeros (Nat.toDigits 10 m.shortest.digits) = ds at hk hlead ⊢
    have hvalue : m.shortest.digits = digitsValue (ds.map CodePoint.ofChar) * Nat.pow 10 k := by
      rw [← digitsValue_append_zeros, ← hk]
      exact (digitsValue_ofNat _).symm
    have hread := Magnitude.ofDecimal?_shortest hm
    rw [hvalue, Magnitude.ofDecimal?_mul_pow] at hread
    rw [unsigned?_layout negative hlead _ hrest, Binary64.ofDecimal, hk, List.length_append,
      List.length_replicate, show ((ds.length + k : Nat) : Int) + m.shortest.power - ds.length =
        m.shortest.power + k from by omega, hread]
    rfl

theorem number?_text (negative : Bool) (m : Magnitude) (hrest : EndsValue rest) :
    number? ((Binary64.finite negative m).text ++ rest) =
      some (.scalar (.float (.finite negative m)), rest) := by
  have h := unsigned?_magnitudeText negative m hrest
  cases negative with
  | true => exact h
  | false => exact number?_of_unsigned? h

/-- The token of a written integer. -/
def ofInt (i : Int) : Token :=
  if Numeral.maxDigits < (Nat.toDigits 10 i.natAbs).length then
    .longNumber (Nat.toDigits 10 i.natAbs).length
  else .scalar (.int i)

private theorem unsigned?_ofNat (negative : Bool) (n : Nat) (hrest : EndsValue rest) :
    unsigned? negative (Text.ofNat n ++ rest) =
      some (ofInt (if negative then -(n : Int) else n), rest) := by
  have hwhole : whole? (Text.ofNat n ++ rest) = some (Text.ofNat n, rest) := by
    by_cases hn : n = 0
    · rw [hn]
      exact whole?_zero rest
    · exact whole?_append (leading_toDigits (Nat.pos_of_ne_zero hn)) (noDigit_of_endsValue hrest)
  have hfrac : fraction rest = ([], rest) :=
    fraction_of_ne (hrest.head _ (by decide) (by decide) (by decide) (by decide))
  have hexp : exponent? rest = none := exponent?_of_ne
    (hrest.head _ (by decide) (by decide) (by decide) (by decide))
  have hlength : (Text.ofNat n).length = (Nat.toDigits 10 n).length := List.length_map ..
  have habs : (if negative then -(n : Int) else n).natAbs = n := by split <;> omega
  simp only [unsigned?, hwhole, Option.map_some, hfrac, hexp, List.isEmpty_nil, hlength,
    digitsValue_ofNat, ofInt, habs, gt_iff_lt]
  split <;> rfl

/-- An integer is read from its text, unless it has too many digits. -/
theorem number?_ofInt (i : Int) (hrest : EndsValue rest) :
    number? (Text.ofInt i ++ rest) = some (ofInt i, rest) := by
  cases i with
  | ofNat n => exact number?_of_unsigned? (unsigned?_ofNat false n hrest)
  | negSucc n => exact unsigned?_ofNat true (n + 1) hrest

end Json.Token

end RouteCatalog
