import RouteCatalog.Json.Token
import RouteCatalog.Json.Writer
import RouteCatalog.Proofs.Json.Value

/-!
# Written strings are read

Every character of a string is written as itself, as a short escape, as one numeric escape or, past
`U+FFFF`, as the two escapes of a surrogate pair. The reader joins an escaped high surrogate with
the escaped low one after it, so a string in which such a pair is split in two would not come back;
all others do (`readText_quote`). What the invariant carries from character to character is whether
the last one was a high surrogate.
-/

namespace RouteCatalog.Json.Token

/-! ## Numeric escapes -/

theorem hexValue?_hexDigit : ∀ d < 16, (hexDigit d).hexValue? = some d := by decide

theorem ofHex_four (n : Nat) :
    Text.ofHex 4 n = [hexDigit (n / 4096 % 16), hexDigit (n / 256 % 16), hexDigit (n / 16 % 16),
      hexDigit (n % 16)] := by
  simp [Text.ofHex, Nat.div_div_eq_div_mul]

variable {start position : Nat} {high : Bool} {done t : Text}

private theorem readText_hexDigit {left value d : Nat} (hd : d < 16) (hleft : 1 < left) :
    readText start (.hex high left value) position done (hexDigit d :: t) =
      readText start (.hex high (left - 1) (value * 16 + d)) (position + 1) done t := by
  rw [readText, hexValue?_hexDigit d hd]
  exact if_neg (by omega)

private theorem readText_lastHexDigit {value d : Nat} (hd : d < 16) (ht : t ≠ []) :
    readText start (.hex high 1 value) position done (hexDigit d :: t) =
      readText start (.plain (CodePoint.ofNat (value * 16 + d)).isHighSurrogate) (position + 1)
        (pushEscaped high done (CodePoint.ofNat (value * 16 + d))) t := by
  have hempty : t.isEmpty = false := by simp [ht]
  rw [readText, hexValue?_hexDigit d hd]
  simp only [Nat.le_refl, if_true, hempty, Bool.false_eq_true, if_false]

theorem readText_escapeUnit {n : Nat} (hn : n < 0x10000) (ht : t ≠ []) :
    readText start (.plain high) position done (escapeUnit n ++ t) =
      readText start (.plain (CodePoint.ofNat n).isHighSurrogate) (position + 6)
        (pushEscaped high done (CodePoint.ofNat n)) t := by
  have hopen : escapeUnit n ++ t = CodePoint.ofChar '\\' :: CodePoint.ofChar 'u' ::
      hexDigit (n / 4096 % 16) :: hexDigit (n / 256 % 16) :: hexDigit (n / 16 % 16) ::
        hexDigit (n % 16) :: t := by
    rw [escapeUnit, ofHex_four]
    rfl
  have hvalue : ((((0 * 16 + n / 4096 % 16) * 16 + n / 256 % 16) * 16) + n / 16 % 16) * 16 +
      n % 16 = n := by
    omega
  rw [hopen, readText, if_neg (by decide), if_pos rfl, readText, if_pos rfl,
    readText_hexDigit (Nat.mod_lt _ (by decide)) (by decide),
    readText_hexDigit (Nat.mod_lt _ (by decide)) (by decide),
    readText_hexDigit (Nat.mod_lt _ (by decide)) (by decide),
    readText_lastHexDigit (Nat.mod_lt _ (by decide)) ht, hvalue]

/-! ## Characters -/

/-- The four ways in which a character is written. -/
inductive Escaped (c : CodePoint) : Text → Prop
  /-- A backslash and a character that stands for it. -/
  | short (e : CodePoint) (he : shortEscape? e = some c) (hu : e ≠ 'u') (hc : c.toNat < 0x80) :
    Escaped c [CodePoint.ofChar '\\', e]
  /-- Itself. -/
  | plain (hquote : c ≠ '"') (hslash : c ≠ '\\') (hlow : 0x20 ≤ c.toNat) (hhigh : c.toNat ≤ 0x7E) :
    Escaped c [c]
  /-- One numeric escape. -/
  | unit (hc : c.toNat < 0x10000) : Escaped c (escapeUnit c.toNat)
  /-- The numeric escapes of a surrogate pair. -/
  | pair (hc : 0x10000 ≤ c.toNat) :
    Escaped c (escapeUnit (0xD800 + (c.toNat - 0x10000) / 0x400) ++
      escapeUnit (0xDC00 + (c.toNat - 0x10000) % 0x400))

theorem escaped_escapeChar (c : CodePoint) : Escaped c (escapeChar c) := by
  by_cases hquote : c = '"'
  · subst hquote
    exact .short (CodePoint.ofChar '"') (by decide) (by decide) (by decide)
  by_cases hslash : c = '\\'
  · subst hslash
    exact .short (CodePoint.ofChar '\\') (by decide) (by decide) (by decide)
  by_cases hline : c = '\n'
  · subst hline
    exact .short (CodePoint.ofChar 'n') (by decide) (by decide) (by decide)
  by_cases hreturn : c = '\r'
  · subst hreturn
    exact .short (CodePoint.ofChar 'r') (by decide) (by decide) (by decide)
  by_cases htab : c = '\t'
  · subst htab
    exact .short (CodePoint.ofChar 't') (by decide) (by decide) (by decide)
  by_cases hback : c.toNat = 0x8
  · obtain rfl : c = .ofNat 0x8 := CodePoint.toNat_injective hback
    exact .short (CodePoint.ofChar 'b') (by decide) (by decide) (by decide)
  by_cases hfeed : c.toNat = 0xC
  · obtain rfl : c = .ofNat 0xC := CodePoint.toNat_injective hfeed
    exact .short (CodePoint.ofChar 'f') (by decide) (by decide) (by decide)
  -- No short escape is left: the character stands for itself or for its number.
  simp only [escapeChar, hquote, hslash, hline, hreturn, htab, hback, hfeed, decide_false,
    Bool.or_self, Bool.false_eq_true, if_false]
  split
  · next hplain =>
    simp only [CodePoint.between, Bool.and_eq_true, decide_eq_true_eq] at hplain
    exact .plain hquote hslash hplain.1 hplain.2
  · split
    · next hunit => exact .unit hunit
    · next hpair => exact .pair (Nat.not_lt.mp hpair)

/-! ## Reading a character -/

private theorem pushEscaped_of_not {c : CodePoint} (h : high = true → c.isLowSurrogate = false) :
    pushEscaped high done c = c :: done := by
  cases high with
  | false => rfl
  | true => simp only [pushEscaped, h rfl, Bool.and_false]

private theorem joinPair_split {c : CodePoint} (hc : 0x10000 ≤ c.toNat) :
    joinPair (.ofNat (0xD800 + (c.toNat - 0x10000) / 0x400))
      (.ofNat (0xDC00 + (c.toNat - 0x10000) % 0x400)) = c := by
  have hlt := c.toNat_lt
  rw [joinPair, CodePoint.toNat_ofNat (by omega), CodePoint.toNat_ofNat (by omega),
    show 0x10000 + (0xD800 + (c.toNat - 0x10000) / 0x400 - 0xD800) * 0x400 +
      (0xDC00 + (c.toNat - 0x10000) % 0x400 - 0xDC00) = c.toNat from by omega,
    CodePoint.ofNat_toNat]

/-- The two halves of a character past `U+FFFF` are joined again. -/
private theorem readText_pair {c : CodePoint} (hc : 0x10000 ≤ c.toNat) (ht : t ≠ []) :
    readText start (.plain high) position done
        (escapeUnit (0xD800 + (c.toNat - 0x10000) / 0x400) ++
          (escapeUnit (0xDC00 + (c.toNat - 0x10000) % 0x400) ++ t)) =
      readText start (.plain false) (position + 12) (c :: done) t := by
  have hlt := c.toNat_lt
  have hne : escapeUnit (0xDC00 + (c.toNat - 0x10000) % 0x400) ++ t ≠ [] := by simp [ht]
  have hhigh : (CodePoint.ofNat (0xD800 + (c.toNat - 0x10000) / 0x400)).isHighSurrogate = true := by
    rw [CodePoint.isHighSurrogate, CodePoint.between, CodePoint.toNat_ofNat (by omega),
      Bool.and_eq_true, decide_eq_true_eq, decide_eq_true_eq]
    omega
  have hlow : (CodePoint.ofNat (0xDC00 + (c.toNat - 0x10000) % 0x400)).isLowSurrogate = true := by
    rw [CodePoint.isLowSurrogate, CodePoint.between, CodePoint.toNat_ofNat (by omega),
      Bool.and_eq_true, decide_eq_true_eq, decide_eq_true_eq]
    omega
  have hfirst : pushEscaped high done (.ofNat (0xD800 + (c.toNat - 0x10000) / 0x400)) =
      .ofNat (0xD800 + (c.toNat - 0x10000) / 0x400) :: done :=
    pushEscaped_of_not fun _ ↦ CodePoint.isLowSurrogate_eq_false
      (.inl (by rw [CodePoint.toNat_ofNat (by omega)]; omega))
  rw [readText_escapeUnit (by omega) hne, hhigh, hfirst, readText_escapeUnit (by omega) ht,
    CodePoint.isHighSurrogate_eq_false (.inr (by rw [CodePoint.toNat_ofNat (by omega)]; omega)),
    pushEscaped, joinPair_split hc]
  rw [hlow]
  rfl

/-- A written character is read as itself, unless it is a low surrogate after a high one. -/
theorem readText_escapeChar (c : CodePoint) (hlow : high = true → c.isLowSurrogate = false)
    (ht : t ≠ []) :
    readText start (.plain high) position done (escapeChar c ++ t) =
      readText start (.plain c.isHighSurrogate) (position + (escapeChar c).length) (c :: done)
        t := by
  have hlength (n : Nat) : (escapeUnit n).length = 6 := by
    rw [escapeUnit, ofHex_four]
    rfl
  generalize htext : escapeChar c = text
  have hescaped : Escaped c text := htext ▸ escaped_escapeChar c
  cases hescaped with
  | short e he hu hc =>
    rw [CodePoint.isHighSurrogate_eq_false (.inl (by omega)), List.cons_append, List.cons_append,
      readText, if_neg (by decide), if_pos rfl, readText, if_neg hu, he]
    rfl
  | plain hquote hslash hsmall hlarge =>
    rw [CodePoint.isHighSurrogate_eq_false (.inl (by omega)), List.cons_append, readText,
      if_neg hquote, if_neg hslash, if_neg (by omega)]
    rfl
  | unit hc =>
    rw [readText_escapeUnit hc ht, CodePoint.ofNat_toNat, pushEscaped_of_not hlow, hlength]
  | pair hc =>
    rw [List.append_assoc, readText_pair hc ht,
      CodePoint.isHighSurrogate_eq_false (.inr (by omega)), List.length_append, hlength, hlength]

/-! ## Strings -/

/-- **A written string is read back.** -/
theorem readText_quote {text : Text} (htext : Text.Unsplit text)
    (hhigh : high = true → ∀ c ∈ text.head?, c.isLowSurrogate = false) (rest : Text) :
    readText start (.plain high) position done
        (text.flatMap escapeChar ++ CodePoint.ofChar '"' :: rest) =
      .ok (done.reverse ++ text, position + (text.flatMap escapeChar).length + 1) := by
  induction text generalizing high position done with
  | nil => simp [readText]
  | cons c text ih =>
    have htail : Text.Unsplit text := htext.of_cons
    -- What makes a character a pair with the next one is excluded by the text itself.
    have hnext : c.isHighSurrogate = true → ∀ d ∈ text.head?, d.isLowSurrogate = false := by
      intro hc d hd
      cases text with
      | nil => cases hd
      | cons d' text =>
        cases hd
        rw [Bool.eq_false_iff]
        exact fun hlow ↦ (List.isChain_cons_cons.mp htext).1 ⟨hc, hlow⟩
    rw [List.flatMap_cons, List.append_assoc,
      readText_escapeChar c (fun h ↦ hhigh h c rfl) (by simp), ih htail hnext,
      List.reverse_cons, List.append_assoc, List.singleton_append, List.length_append]
    congr 3
    omega

end RouteCatalog.Json.Token
