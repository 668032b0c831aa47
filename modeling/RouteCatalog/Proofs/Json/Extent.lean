import RouteCatalog.Proofs.Json.Lexeme
import RouteCatalog.Proofs.Number.Numeral

/-!
# How far tokens reach

A token takes its lexeme off the front of a text (`IsLexeme`), and looks no further than the
character behind it: a string ends at its quote whatever follows (`readText_local`), and a number
ends in the same way before all texts that start with neither a digit, a point nor the letter of an
exponent (`number?_local`). No lexeme holds a line feed, and blanks are only inside of it.
-/

namespace RouteCatalog.Json

namespace Token

variable {t x rest rest' : Text} {token : Token} {tokens : List Token}

/-! ## Numbers -/

/-- Where the one text may stand behind a number, so may the other. -/
structure Follows (rest rest' : Text) : Prop where
  /-- It does not start with a digit unless the first one does. -/
  digit : NoDigit rest → NoDigit rest'
  /-- It does not start with a character that may go on with a number. -/
  inside : ∀ c ∈ rest'.head?, c ≠ '.' ∧ c ≠ 'e' ∧ c ≠ 'E'

/-- None of the characters is blank. -/
def Unblank (t : Text) : Prop := ∀ c ∈ t, c.isBlank = false

instance (t : Text) : Decidable (Unblank t) := inferInstanceAs (Decidable (∀ c ∈ t, _))

theorem Unblank.append {s : Text} (hs : Unblank s) (ht : Unblank t) : Unblank (s ++ t) :=
  fun c hc ↦ (List.mem_append.mp hc).elim (hs c) (ht c)

theorem unblank_digits (h : ∀ c ∈ t, c.isAsciiDigit = true) : Unblank t := by
  intro c hc
  have := CodePoint.of_isAsciiDigit (p := fun c ↦ !c.isBlank) (by decide) (h c hc)
  rwa [Bool.not_eq_true'] at this

theorem spanDigits_eq {ds : Text} (h : spanDigits t = (ds, rest)) :
    t = ds ++ rest ∧ (∀ c ∈ ds, c.isAsciiDigit = true) ∧ NoDigit rest := by
  obtain ⟨rfl, rfl⟩ := Prod.mk.inj h
  refine ⟨List.takeWhile_append_dropWhile.symm, fun c hc ↦ List.mem_takeWhile_imp hc, fun c hc ↦ ?_⟩
  have hhead := List.head?_dropWhile_not CodePoint.isAsciiDigit t
  rw [hc] at hhead
  exact hhead

theorem noDigit_append {y : Text} (h : NoDigit rest → NoDigit rest') (hx : NoDigit (y ++ rest)) :
    NoDigit (y ++ rest') := by
  cases y with
  | nil => exact h hx
  | cons c y => exact hx

theorem whole?_local {w : Text} (h : whole? t = some (w, rest)) :
    t = w ++ rest ∧ w ≠ [] ∧ Unblank w ∧
      ∀ rest', (NoDigit rest → NoDigit rest') → whole? (w ++ rest') = some (w, rest') := by
  cases t with
  | nil => cases h
  | cons c t =>
    rw [whole?] at h
    split at h
    · next hzero =>
      cases h
      obtain rfl := hzero
      exact ⟨rfl, List.cons_ne_nil _ _, by decide, fun rest' _ ↦ whole?_zero rest'⟩
    · next hzero =>
      split at h
      · next hdigit =>
        rcases hspan : spanDigits t with ⟨ds, rest⟩
        obtain ⟨rfl, hdigits, hnext⟩ := spanDigits_eq hspan
        rw [hspan] at h
        cases h
        refine ⟨rfl, List.cons_ne_nil _ _,
          unblank_digits (List.forall_mem_cons.mpr ⟨hdigit, hdigits⟩), fun rest' hrest' ↦ ?_⟩
        rw [List.cons_append, whole?, if_neg hzero, if_pos hdigit,
          spanDigits_append hdigits (hrest' hnext)]
      · cases h

theorem fraction_local {frac : Text} (h : fraction t = (frac, rest)) :
    ∃ x, t = x ++ rest ∧ Unblank x ∧ ∀ rest', (NoDigit rest → NoDigit rest') →
      (∀ c ∈ rest'.head?, c ≠ '.') → fraction (x ++ rest') = (frac, rest') := by
  cases t with
  | nil =>
    cases h
    exact ⟨[], rfl, by decide, fun rest' _ hpoint ↦ fraction_of_ne hpoint⟩
  | cons c t =>
    rw [fraction] at h
    split at h
    · next hpoint =>
      simp only [Bool.and_eq_true, decide_eq_true_eq] at hpoint
      obtain ⟨rfl, hsome⟩ := hpoint
      obtain ⟨rfl, hdigits, hnext⟩ := spanDigits_eq h
      rw [h] at hsome
      refine ⟨CodePoint.ofChar '.' :: frac, rfl,
        List.forall_mem_cons.mpr ⟨by decide, unblank_digits hdigits⟩, fun rest' hrest' _ ↦ ?_⟩
      have hspan := spanDigits_append hdigits (hrest' hnext)
      rw [List.cons_append, fraction, hspan, if_pos]
      rw [hsome]
      rfl
    · cases h
      exact ⟨[], rfl, by decide, fun rest' _ hpoint ↦ fraction_of_ne hpoint⟩

theorem splitSign_local {negative : Bool} {ds : Text} (hds : ∀ c ∈ ds, c.isAsciiDigit = true)
    (hne : ds ≠ []) (h : Numeral.splitSign t = (negative, ds ++ rest)) :
    ∃ sign, t = sign ++ (ds ++ rest) ∧ Unblank sign ∧
      ∀ rest', Numeral.splitSign (sign ++ (ds ++ rest')) = (negative, ds ++ rest') := by
  obtain ⟨d, more, rfl⟩ := List.exists_cons_of_ne_nil hne
  have hd := CodePoint.of_isAsciiDigit (p := fun c ↦ c ≠ '-' && c ≠ '+') (by decide)
    (hds d List.mem_cons_self)
  simp only [Bool.and_eq_true, decide_eq_true_eq] at hd
  cases t with
  | nil => cases h
  | cons c t =>
    rw [Numeral.splitSign] at h
    split at h
    · next hminus =>
      cases h
      obtain rfl := hminus
      exact ⟨"-", rfl, by decide, fun _ ↦ rfl⟩
    · split at h
      · next hplus =>
        cases h
        obtain rfl := hplus
        exact ⟨"+", rfl, by decide, fun _ ↦ rfl⟩
      · cases h
        refine ⟨[], rfl, by decide, fun rest' ↦ ?_⟩
        rw [List.nil_append, List.cons_append, Numeral.splitSign, if_neg hd.1, if_neg hd.2]

theorem exponent?_local {e : Int} (h : exponent? t = some (e, rest)) :
    ∃ c x, t = c :: (x ++ rest) ∧ (c = CodePoint.ofChar 'e' ∨ c = CodePoint.ofChar 'E') ∧
      Unblank (c :: x) ∧ ∀ rest', (NoDigit rest → NoDigit rest') →
        exponent? (c :: (x ++ rest')) = some (e, rest') := by
  cases t with
  | nil => cases h
  | cons c t =>
    rw [exponent?] at h
    split at h
    · next hletter =>
      rcases hsign : Numeral.splitSign t with ⟨negative, after⟩
      rcases hspan : spanDigits after with ⟨ds, last⟩
      obtain ⟨rfl, hdigits, hnext⟩ := spanDigits_eq hspan
      simp only [hsign, hspan] at h
      split at h
      · cases h
      · next hne =>
        cases h
        have hne' : ds ≠ [] := fun hnil ↦ hne (by rw [hnil]; rfl)
        obtain ⟨sign, rfl, hsigned, hlocal⟩ := splitSign_local hdigits hne' hsign
        have hletter' : c = CodePoint.ofChar 'e' ∨ c = CodePoint.ofChar 'E' := by
          simpa only [Bool.or_eq_true, decide_eq_true_eq] using hletter
        refine ⟨c, sign ++ ds, by rw [List.append_assoc], hletter',
          List.forall_mem_cons.mpr ⟨?_, hsigned.append (unblank_digits hdigits)⟩,
          fun rest' hrest' ↦ ?_⟩
        · rcases hletter' with rfl | rfl <;> decide
        · simp only [List.append_assoc, exponent?, if_pos hletter, hlocal,
            spanDigits_append hdigits (hrest' hnext), if_neg hne]
    · cases h

/-- **A number does not depend on more than the character behind it.** -/
theorem unsigned?_local {negative : Bool} (h : unsigned? negative t = some (token, rest)) :
    ∃ x, t = x ++ rest ∧ x ≠ [] ∧ Unblank x ∧
      ∀ rest', Follows rest rest' → unsigned? negative (x ++ rest') = some (token, rest') := by
  obtain ⟨⟨w, t₁⟩, hw, hrest⟩ := Option.map_eq_some_iff.mp h
  clear h
  obtain ⟨rfl, hne, hwhole, hw'⟩ := whole?_local hw
  rcases hfrac : fraction t₁ with ⟨frac, t₂⟩
  obtain ⟨x, rfl, hx, hfrac'⟩ := fraction_local hfrac
  have hne' (y : Text) : w ++ y ≠ [] := fun hnil ↦ hne (List.append_eq_nil_iff.mp hnil).1
  cases hexponent : exponent? t₂ with
  | none =>
    simp only [hfrac, hexponent] at hrest
    have hend : t₂ = rest := by
      split at hrest
      · split at hrest <;> exact (Prod.mk.inj hrest).2
      · exact (Prod.mk.inj hrest).2
      · next hsome => cases hsome
    subst hend
    refine ⟨w ++ x, (List.append_assoc _ _ _).symm, hne' x, hwhole.append hx, fun rest' hrest' ↦ ?_⟩
    simp only [List.append_assoc, unsigned?, hw' _ (noDigit_append hrest'.digit), Option.map_some,
      hfrac' rest' hrest'.digit fun c hc ↦ (hrest'.inside c hc).1,
      exponent?_of_ne fun c hc ↦ (hrest'.inside c hc).2]
    split at hrest
    · split at hrest
      · next hlong =>
        cases hrest
        rw [if_pos hlong]
      · next hshort =>
        cases hrest
        rw [if_neg hshort]
    · cases hrest
      rfl
    · next hsome => cases hsome
  | some found =>
    obtain ⟨e, last⟩ := found
    obtain ⟨c, y, rfl, hletter, hy, hexponent'⟩ := exponent?_local hexponent
    simp only [hfrac, hexponent] at hrest
    cases hrest
    have hpoint (rest' : Text) : ∀ d ∈ (c :: (y ++ rest')).head?, d ≠ CodePoint.ofChar '.' := by
      rintro _ ⟨⟩
      rcases hletter with rfl | rfl <;> decide
    refine ⟨w ++ (x ++ c :: y), by simp only [List.append_assoc, List.cons_append], hne' _,
      hwhole.append (hx.append hy), fun rest' hrest' ↦ ?_⟩
    have hnext : NoDigit (c :: (y ++ rest)) → NoDigit (c :: (y ++ rest')) := id
    simp only [List.append_assoc, List.cons_append, unsigned?, Option.map_some,
      hw' _ (noDigit_append hnext), hfrac' _ hnext (hpoint rest'), hexponent' rest' hrest'.digit]

theorem startsWith_minus (c : CodePoint) (t : Text) :
    Text.startsWith "-" (c :: t) = decide (CodePoint.ofChar '-' = c) := by
  have hliteral : Text.ofString "-" = [CodePoint.ofChar '-'] := rfl
  rw [Text.startsWith, hliteral, Text.dropLiteral?]
  split
  · next hc => exact (decide_eq_true hc).symm
  · next hc => exact (decide_eq_false hc).symm

theorem number?_local (h : number? t = some (token, rest)) :
    ∃ c x, t = c :: x ++ rest ∧ Unblank (c :: x) ∧
      ∀ rest', Follows rest rest' → number? (c :: x ++ rest') = some (token, rest') := by
  rw [number?] at h
  split at h
  · next hminus =>
    obtain ⟨after, hafter⟩ := Option.isSome_iff_exists.mp hminus
    obtain rfl := Text.dropLiteral?_eq_some_iff.mp hafter
    obtain ⟨x, hsplit, -, hx, hlocal⟩ := unsigned?_local h
    obtain rfl : after = x ++ rest := hsplit
    exact ⟨CodePoint.ofChar '-', x, rfl, List.forall_mem_cons.mpr ⟨by decide, hx⟩,
      fun rest' hrest' ↦ hlocal rest' hrest'⟩
  · next hminus =>
    obtain ⟨x, rfl, hne, hx, hlocal⟩ := unsigned?_local h
    obtain ⟨c, x, rfl⟩ := List.exists_cons_of_ne_nil hne
    refine ⟨c, x, rfl, hx, fun rest' hrest' ↦ ?_⟩
    rw [List.cons_append, startsWith_minus] at hminus
    rw [List.cons_append, number?, startsWith_minus, if_neg hminus]
    exact hlocal rest' hrest'

/-! ## Strings -/

/-- A character that does not close the string is taken in the same way whatever follows it. -/
theorem readText_cons_eq_ok {start position : Nat} {state : Within} {c : CodePoint} {done : Text}
    {found : Text × Nat} (h : readText start state position done (c :: t) = .ok found) :
    (c = CodePoint.ofChar '"' ∧ found = (done.reverse, position + 1) ∧
      ∀ start' position' t', readText start' state position' done (c :: t') =
        .ok (done.reverse, position' + 1)) ∨
      ∃ state' done', c ≠ CodePoint.ofChar '\n' ∧
        readText start state' (position + 1) done' t = .ok found ∧
        ∀ start' position' t', t' ≠ [] → readText start' state position' done (c :: t') =
          readText start' state' (position' + 1) done' t' := by
  cases state with
  | plain high =>
    rw [readText] at h
    split_ifs at h with hquote hslash hcontrol
    · cases h
      exact .inl ⟨hquote, rfl, fun _ _ _ ↦ by rw [readText, if_pos hquote]⟩
    · refine .inr ⟨_, _, by rw [hslash]; decide, h, fun _ _ _ _ ↦ ?_⟩
      rw [readText, if_neg hquote, if_pos hslash]
    · refine .inr ⟨_, _, ?_, h, fun _ _ _ _ ↦ ?_⟩
      · rintro rfl
        exact hcontrol (by decide)
      · rw [readText, if_neg hquote, if_neg hslash, if_neg hcontrol]
  | escape high =>
    rw [readText] at h
    split at h
    · next hu =>
      refine .inr ⟨_, _, by rw [hu]; decide, h, fun _ _ _ _ ↦ ?_⟩
      rw [readText, if_pos hu]
    · next hu =>
      split at h
      · next e he =>
        refine .inr ⟨_, _, ?_, h, fun _ _ _ _ ↦ ?_⟩
        · rintro rfl
          cases he
        · rw [readText, if_neg hu, he]
      · cases h
  | hex high left n =>
    rw [readText] at h
    split at h
    · cases h
    · next d hd =>
      have hline : c ≠ CodePoint.ofChar '\n' := by
        rintro rfl
        cases hd
      dsimp only at h
      split_ifs at h with hleft hempty
      · refine .inr ⟨_, _, hline, h, fun _ _ t' ht' ↦ ?_⟩
        simp only [readText, hd, if_pos hleft, List.isEmpty_iff, ht', if_false]
      · refine .inr ⟨_, _, hline, h, fun _ _ _ _ ↦ ?_⟩
        simp only [readText, hd, if_neg hleft]

/-- **A string does not depend on what follows it**, nor on where it stands. -/
theorem readText_local {start position stop : Nat} {state : Within} {done value : Text}
    (h : readText start state position done t = .ok (value, stop)) :
    ∃ x rest, t = x ++ CodePoint.ofChar '"' :: rest ∧ stop = position + x.length + 1 ∧
      CodePoint.ofChar '\n' ∉ x ∧ ∀ start' position' rest',
        readText start' state position' done (x ++ CodePoint.ofChar '"' :: rest') =
          .ok (value, position' + x.length + 1) := by
  induction t generalizing state position done with
  | nil => cases state <;> cases h
  | cons c t ih =>
    rcases readText_cons_eq_ok h with ⟨rfl, hfound, hclosed⟩ | ⟨state', done', hline, hnext, hmore⟩
    · cases hfound
      exact ⟨[], t, rfl, rfl, List.not_mem_nil, hclosed⟩
    · obtain ⟨x, rest, rfl, rfl, hx, hlocal⟩ := ih hnext
      refine ⟨c :: x, rest, rfl, ?_, ?_, fun start' position' rest' ↦ ?_⟩
      · rw [List.length_cons]
        omega
      · rw [List.mem_cons, not_or]
        exact ⟨hline.symm, hx⟩
      · have hne : x ++ CodePoint.ofChar '"' :: rest' ≠ [] :=
          List.append_ne_nil_of_right_ne_nil _ (List.cons_ne_nil _ _)
        rw [List.cons_append, hmore _ _ _ hne, hlocal, List.length_cons]
        exact congrArg (fun stop ↦ Except.ok (value, stop)) (by omega)

/-! ## Lexemes -/

/-- The text is what a token takes of a text that goes on with `rest`. -/
structure IsLexeme (text : Text) (token : Token) (rest : Text) : Prop where
  notLast : token.isLast = false
  /-- The token takes the text, too, when something of the same kind follows. -/
  front : ∀ rest', Follows rest rest' → IsFront text token rest'
  oneLine : CodePoint.ofChar '\n' ∉ text
  head : ∀ c ∈ text.head?, c.isBlank = false
  last : ∀ c ∈ text.getLast?, c.isBlank = false

theorem IsLexeme.of_unblank {text : Text} (hlast : token.isLast = false) (htext : Unblank text)
    (hfront : ∀ rest', Follows rest rest' → IsFront text token rest') :
    IsLexeme text token rest where
  notLast := hlast
  front := hfront
  oneLine hmem := absurd (htext _ hmem) (by decide)
  head c hc := htext c (List.mem_of_mem_head? hc)
  last c hc := htext c (List.mem_of_mem_getLast? hc)

theorem isLexeme_text {position stop : Nat} {value : Text}
    (h : readText position (.plain false) (position + 1) [] t = .ok (value, stop)) :
    ∃ x rest, t = x ++ rest ∧ stop - position = x.length + 1 ∧
      IsLexeme (CodePoint.ofChar '"' :: x) (.text value) rest := by
  obtain ⟨x, rest, rfl, rfl, hline, hlocal⟩ := readText_local h
  have hsplit (rest : Text) : x ++ [CodePoint.ofChar '"'] ++ rest =
      x ++ CodePoint.ofChar '"' :: rest := List.append_assoc _ _ _
  refine ⟨x ++ [CodePoint.ofChar '"'], rest, (hsplit rest).symm, ?_,
    rfl, fun rest' _ ↦ ?_, ?_, ?_, ?_⟩
  · rw [List.length_append, List.length_singleton]
    omega
  · refine .of (by decide) fun position' ↦ ?_
    have hread := hlocal position' (position' + 1) rest'
    have hlength : position' + 1 + x.length + 1 - position' = x.length + 1 + 1 := by omega
    rw [hsplit, List.length_append, List.length_singleton, atFront]
    simp only [hread, hlength]
    rfl
  · rw [List.mem_cons, List.mem_append, List.mem_singleton, not_or, not_or]
    exact ⟨by decide, hline, by decide⟩
  · rintro _ ⟨⟩
    decide
  · rw [← List.cons_append, List.getLast?_append, List.getLast?_singleton]
    rintro _ ⟨⟩
    decide

theorem isLexeme_word {word : Text} {v : Json}
    (h : words.find? (fun (w, _) ↦ Text.startsWith w t) = some (word, v)) :
    ∃ rest, t = word ++ rest ∧ word ≠ [] ∧ IsLexeme word (.scalar v) rest := by
  have hunblank : ∀ w ∈ words, w.1 ≠ [] ∧ Unblank w.1 := by decide
  have hword := List.mem_of_find?_eq_some h
  obtain ⟨i, hi⟩ := List.getElem?_of_mem hword
  have hstarts := List.find?_some h
  obtain ⟨rest, hrest⟩ := Option.isSome_iff_exists.mp hstarts
  exact ⟨rest, Text.dropLiteral?_eq_some_iff.mp hrest, (hunblank _ hword).1,
    .of_unblank rfl (hunblank _ hword).2 fun _ _ ↦ isFront_word i hi⟩

theorem isLexeme_mark {mark : Char} (hlast : token.isLast = false)
    (hblank : (CodePoint.ofChar mark).isBlank = false)
    (hfront : ∀ rest, IsFront [CodePoint.ofChar mark] token rest) (t : Text) :
    ∃ x rest, t = x ++ rest ∧ 1 = x.length + 1 ∧
      IsLexeme (CodePoint.ofChar mark :: x) token rest :=
  ⟨[], t, rfl, rfl, .of_unblank hlast (List.forall_mem_singleton.mpr hblank)
    fun rest' _ ↦ hfront rest'⟩

/-- Every token but a faulty one takes a lexeme. -/
theorem exists_isLexeme {c : CodePoint} {position length : Nat}
    (h : atFront position c t = (token, length)) (hlast : token.isLast = false) :
    ∃ x rest, t = x ++ rest ∧ length = x.length + 1 ∧ IsLexeme (c :: x) token rest := by
  unfold atFront at h
  split_ifs at h with h₁ h₂ h₃ h₄ h₅ h₆ h₇
  · cases h
    exact h₁ ▸ isLexeme_mark rfl (by decide) (fun _ ↦ isFront_opening_array) t
  · cases h
    exact h₂ ▸ isLexeme_mark rfl (by decide) (fun _ ↦ isFront_closing_array) t
  · cases h
    exact h₃ ▸ isLexeme_mark rfl (by decide) (fun _ ↦ isFront_opening_object) t
  · cases h
    exact h₄ ▸ isLexeme_mark rfl (by decide) (fun _ ↦ isFront_closing_object) t
  · cases h
    exact h₅ ▸ isLexeme_mark rfl (by decide) (fun _ ↦ isFront_comma) t
  · cases h
    exact h₆ ▸ isLexeme_mark rfl (by decide) (fun _ ↦ isFront_colon) t
  · split at h
    · next value stop hread =>
      cases h
      subst h₇
      exact isLexeme_text hread
    · cases h
      cases hlast
  · split at h
    · next w v hfind =>
      cases h
      obtain ⟨rest, hsplit, hne, hlexeme⟩ := isLexeme_word hfind
      obtain ⟨d, x, rfl⟩ := List.exists_cons_of_ne_nil hne
      obtain ⟨rfl, rfl⟩ := List.cons.inj hsplit
      exact ⟨x, rest, rfl, rfl, hlexeme⟩
    · split at h
      · next found rest hnumber =>
        cases h
        obtain ⟨d, x, hsplit, hunblank, hlocal⟩ := number?_local hnumber
        rw [List.cons_append] at hsplit
        obtain ⟨rfl, rfl⟩ := List.cons.inj hsplit
        refine ⟨x, rest, rfl, ?_, .of_unblank hlast hunblank fun rest' hrest' ↦
          isFront_cons_of_number? (hlocal rest' hrest')⟩
        rw [List.length_append]
        omega
      · cases h
        cases hlast

end Token

end RouteCatalog.Json
