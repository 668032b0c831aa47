import Mathlib.Algebra.Group.Nat.Defs
import RouteCatalog.Proofs.Yaml.Printed

/-!
# Quoted scalars are read

A scalar that is written between quotes is read back, whatever column it starts at and wherever its
lines are folded or broken (`Quoted.read_double`, `Quoted.read_single`). The induction is on the
text; what it carries is the mode of the reader, together with what the mode still owes to the
value: blanks that may turn out to end a line, or a line end that may turn out to stand for a blank
(`Quoted.Settles`).
-/

namespace RouteCatalog.Yaml.Token.Quoted

open Style

variable {isDouble : Bool} {mode next : Mode} {c : CodePoint} {owed s t text rest : Text}

/-! ## Steps -/

/-- What the mode owes to the value once a character comes that is neither a blank nor the end of a
line. -/
inductive Settles : Mode → Text → Prop
  | value : Settles .value []
  | blanks (before : Text) : Settles (.blanks before) before.reverse
  /-- What the first line end stands for. -/
  | lines (first : Option CodePoint) :
    Settles (.lines first false) (first.elim [] (Plain.fold · []))

theorem step_of_settles (hmode : Settles mode owed) (hspace : isSpace c = false)
    (hbreak : isBreak c = false) (t : Text) :
    step isDouble c t mode = .ok (owed, valueStep isDouble c) := by
  cases hmode with
  | value => rfl
  | blanks before => simp only [step, hspace, hbreak, Bool.false_eq_true, if_false]
  | lines first =>
    simp only [step, hspace, hbreak, Bool.false_and, Bool.false_eq_true, if_false]

theorem readFrom_more {before added : Text}
    (hstep : step isDouble c t mode = .ok (before, .more added next))
    (hrest : readFrom isDouble next t = .ok (text, rest)) :
    readFrom isDouble mode (c :: t) = .ok (before ++ added ++ text, rest) := by
  rw [readFrom, hstep]
  dsimp only
  rw [hrest]
  rfl

/-- A character that is neither a blank, nor the end of a line, nor special. -/
theorem readFrom_ordinary (hmode : Settles mode owed) (hspace : isSpace c = false)
    (hbreak : isBreak c = false) (hvalue : valueStep isDouble c = .more [c] .value)
    (hrest : readFrom isDouble .value t = .ok (text, rest)) :
    readFrom isDouble mode (c :: t) = .ok (owed ++ c :: text, rest) := by
  have hstep : step isDouble c t mode = .ok (owed, .more [c] .value) := by
    rw [step_of_settles hmode hspace hbreak, hvalue]
  have hread := readFrom_more hstep hrest
  rwa [List.append_assoc] at hread

theorem readFrom_pending (hmode : Settles mode owed)
    (hlines : ∀ before start, mode ≠ .lines before start)
    (hrest : ∀ before, readFrom isDouble (.blanks before) t = .ok (before.reverse ++ text, rest)) :
    readFrom isDouble mode (CodePoint.ofChar ' ' :: t) =
      .ok (owed ++ CodePoint.ofChar ' ' :: text, rest) := by
  cases hmode with
  | value =>
    have hstep : step isDouble (CodePoint.ofChar ' ') t .value =
        .ok ([], .more [] (.blanks [CodePoint.ofChar ' '])) := rfl
    exact readFrom_more hstep (hrest [CodePoint.ofChar ' '])
  | blanks before =>
    have hstep : step isDouble (CodePoint.ofChar ' ') t (.blanks before) =
        .ok ([], .more [] (.blanks (CodePoint.ofChar ' ' :: before))) := rfl
    have hread := readFrom_more hstep (hrest (CodePoint.ofChar ' ' :: before))
    rwa [List.reverse_cons, List.append_assoc before.reverse] at hread
  | lines first => exact absurd rfl (hlines first false)

/-! ## Line ends -/

theorem readFrom_blank (first : Option CodePoint) (start : Bool) (t : Text) :
    readFrom isDouble (.lines first start) (CodePoint.ofChar ' ' :: t) =
      readFrom isDouble (.lines first false) t := by
  have hstep : step isDouble (CodePoint.ofChar ' ') t (.lines first start) =
      .ok ([], .more [] (.lines first false)) := by
    cases start <;> rfl
  rw [readFrom, hstep]
  dsimp only
  cases readFrom isDouble (.lines first false) t <;> rfl

theorem readFrom_margin {indent : Nat} (hindent : 0 < indent) (first : Option CodePoint)
    (start : Bool) (t : Text) :
    readFrom isDouble (.lines first start) (margin indent ++ t) =
      readFrom isDouble (.lines first false) t := by
  induction indent generalizing start with
  | zero => exact absurd hindent (Nat.lt_irrefl 0)
  | succ indent ih =>
    rw [margin, List.replicate_succ, List.cons_append, readFrom_blank]
    cases indent with
    | zero => rfl
    | succ indent => exact ih (Nat.succ_pos indent) false

/-! ## Escapes -/

theorem hexValue?_upperDigit : ∀ d < 16, (upperDigit d).hexValue? = some d := by decide

theorem readFrom_digits {width n : Nat} (hn : n < 16 ^ width) (left found : Nat) (t : Text) :
    readFrom true (.number (width + left) found) (upperHex width n ++ t) =
      readFrom true (.number left (found * 16 ^ width + n)) t := by
  induction width generalizing n left t with
  | zero =>
    obtain rfl : n = 0 := Nat.lt_one_iff.mp hn
    rw [Nat.zero_add, Nat.pow_zero, Nat.mul_one]
    rfl
  | succ width ih =>
    have hfront : n / 16 < 16 ^ width := Nat.div_lt_of_lt_mul (by rwa [Nat.pow_succ'] at hn)
    have hsum : (found * 16 ^ width + n / 16) * 16 + n % 16 = found * 16 ^ (width + 1) + n := by
      rw [Nat.pow_succ, ← Nat.mul_assoc]
      omega
    rw [upperHex_succ, List.append_assoc, List.singleton_append, Nat.add_right_comm, Nat.add_assoc,
      ih hfront, readFrom]
    simp only [step, hexValue?_upperDigit _ (Nat.mod_lt n (by decide)), Nat.succ_pos, if_true, hsum]
    rw [Nat.add_sub_cancel]
    cases readFrom true (.number left (found * 16 ^ (width + 1) + n)) t <;> rfl

theorem readFrom_number {width : Nat} (hc : c.toNat < 16 ^ (width + 1))
    (hrest : readFrom true .value t = .ok (text, rest)) :
    readFrom true (.number width 0) (upperHex (width + 1) c.toNat ++ t) =
      .ok (c :: text, rest) := by
  have hfront : c.toNat / 16 < 16 ^ width :=
    Nat.div_lt_of_lt_mul (by rwa [Nat.pow_succ'] at hc)
  have hsum : c.toNat / 16 * 16 + c.toNat % 16 = c.toNat := Nat.div_add_mod' c.toNat 16
  have hlast : step true (upperDigit (c.toNat % 16)) t (.number 0 (c.toNat / 16)) =
      .ok ([], .more [c] .value) := by
    simp only [step, hexValue?_upperDigit _ (Nat.mod_lt c.toNat (by decide)), Nat.lt_irrefl,
      if_false, hsum, c.toNat_lt, if_true, CodePoint.ofNat_toNat]
  have hdigits := readFrom_digits hfront 0 0 (upperDigit (c.toNat % 16) :: t)
  rw [Nat.add_zero, Nat.zero_mul, Nat.zero_add] at hdigits
  rw [upperHex_succ, List.append_assoc, List.singleton_append, hdigits]
  exact readFrom_more hlast hrest

/-- **An escape is read as its character.** -/
theorem readFrom_escape? {e : Text} (h : escape? c = some e) (hmode : Settles mode owed)
    (hrest : readFrom true .value t = .ok (text, rest)) :
    readFrom true mode (e ++ t) = .ok (owed ++ c :: text, rest) := by
  have hshort : ∀ pair ∈ Style.shortEscapes, shortEscapes.lookup pair.2 = some pair.1 ∧
      isBreak pair.2 = false := by decide
  -- After the backslash, the rest of the escape gives the character.
  have hopen (body : Text) (hbody : readFrom true .escape (body ++ t) = .ok (c :: text, rest)) :
      readFrom true mode (CodePoint.ofChar '\\' :: (body ++ t)) =
        .ok (owed ++ c :: text, rest) := by
    have hstep : step true (CodePoint.ofChar '\\') (body ++ t) mode =
        .ok (owed, .more [] .escape) := step_of_settles hmode rfl rfl _
    have hread := readFrom_more hstep hbody
    rwa [List.append_nil] at hread
  have hmark (mark : CodePoint) {width : Nat} (hwidth : numberWidth? mark = some (width + 1))
      (hmark : isBreak mark = false ∧ shortEscapes.lookup mark = none)
      (hc : c.toNat < 16 ^ (width + 1)) :
      readFrom true .escape ((mark :: upperHex (width + 1) c.toNat) ++ t) =
        .ok (c :: text, rest) := by
    have hstep : step true mark (upperHex (width + 1) c.toNat ++ t) .escape =
        .ok ([], .more [] (.number width 0)) := by
      simp only [step, hmark.1, hmark.2, hwidth, Bool.false_eq_true, if_false, Nat.add_sub_cancel]
    exact readFrom_more hstep (readFrom_number hc hrest)
  rw [escape?] at h
  split at h
  · next e' hlookup =>
    cases h
    obtain ⟨before, after, htable, -⟩ := List.lookup_eq_some_iff.mp hlookup
    obtain ⟨hback, hbreak⟩ := hshort (c, e') (htable ▸ List.mem_append_right _ List.mem_cons_self)
    refine hopen [e'] ?_
    have hstep : step true e' t .escape = .ok ([], .more [c] .value) := by
      simp only [step, hbreak, hback, Bool.false_eq_true, if_false]
    exact readFrom_more hstep hrest
  · split at h
    · cases h
    · split at h
      · next hc =>
        cases h
        exact hopen _ (hmark 'x' rfl ⟨rfl, rfl⟩ hc)
      · split at h
        · next hc =>
          cases h
          exact hopen _ (hmark 'u' rfl ⟨rfl, rfl⟩ hc)
        · cases h
          exact hopen _ (hmark 'U' rfl ⟨rfl, rfl⟩ (Nat.lt_trans c.toNat_lt (by decide)))

/-! ## Between double quotes -/

theorem startsWith_blank_iff :
    Text.startsWith " " t = true ↔ t.head? = some (CodePoint.ofChar ' ') := by
  cases t with
  | nil => decide
  | cons c t =>
    have hstarts : Text.startsWith " " (c :: t) = decide (CodePoint.ofChar ' ' = c) := by
      show (if CodePoint.ofChar ' ' = c then some t else none).isSome = _
      split
      · next h => rw [decide_eq_true h]; rfl
      · next h => rw [decide_eq_false h]; rfl
    rw [hstarts, decide_eq_true_eq, List.head?_cons, Option.some.injEq]
    exact eq_comm

variable {indent : Nat}

theorem readFrom_brokenLine (hindent : 0 < indent) (hmode : Settles mode owed)
    (hplain : t.head? ≠ some (CodePoint.ofChar ' ') →
      readFrom true (.lines none false) s = .ok (text, rest))
    (hblank : t.head? = some (CodePoint.ofChar ' ') → readFrom true .escape s = .ok (text, rest)) :
    readFrom true mode ((brokenLine indent t).1 ++ s) = .ok (owed ++ text, rest) := by
  have hbroken {after : Text}
      (hafter : readFrom true (.lines none false) after = .ok (text, rest)) :
      readFrom true mode (CodePoint.ofChar '\\' :: CodePoint.ofChar '\n' ::
        (margin indent ++ after)) = .ok (owed ++ text, rest) := by
    have hslash : step true (CodePoint.ofChar '\\')
        (CodePoint.ofChar '\n' :: (margin indent ++ after)) mode =
          .ok (owed, .more [] .escape) := step_of_settles hmode rfl rfl _
    have hfeed : step true (CodePoint.ofChar '\n') (margin indent ++ after) .escape =
        .ok ([], .more [] (.lines none true)) := rfl
    rw [← readFrom_margin hindent none true] at hafter
    have hread := readFrom_more hslash (readFrom_more hfeed hafter)
    rwa [List.append_nil, List.nil_append] at hread
  rw [brokenLine]
  split
  · next hstarts =>
    have hslash : step true (CodePoint.ofChar '\\') s (.lines none false) =
        .ok ([], .more [] .escape) := rfl
    have hescaped := readFrom_more hslash (hblank (startsWith_blank_iff.mp hstarts))
    have hread := hbroken hescaped
    rw [newLine]
    rw [List.append_assoc, List.append_assoc]
    exact hread
  · next hstarts => exact hbroken (hplain (mt startsWith_blank_iff.mpr hstarts))

theorem brokenLine_of_blank (h : t.head? = some (CodePoint.ofChar ' ')) :
    (brokenLine indent t).2 = indent + 1 := by
  rw [brokenLine, if_pos (startsWith_blank_iff.mpr h)]

theorem valueStep_of_escape? (h : escape? c = none) (hblank : c ≠ ' ') :
    valueStep true c = .more [c] .value := by
  have hsimple := isSimple_of_escape? h
  have hquote : c ≠ '"' := by
    rintro rfl
    cases h
  have hslash : c ≠ '\\' := by
    rintro rfl
    cases h
  simp only [valueStep, isSpace_of_isSimple hsimple hblank, isBreak_of_isSimple hsimple, hquote,
    hslash, decide_false, Bool.and_false, Bool.not_true, Bool.false_and, Bool.false_eq_true,
    if_false]

theorem readFrom_escapedBlank (hrest : readFrom true .value t = .ok (text, rest)) :
    readFrom true .escape (CodePoint.ofChar ' ' :: t) =
      .ok (CodePoint.ofChar ' ' :: text, rest) := by
  have hstep : step true (CodePoint.ofChar ' ') t .escape =
      .ok ([], .more [CodePoint.ofChar ' '] .value) := rfl
  exact readFrom_more hstep hrest

/-- **A text that is written between double quotes is read back**, from any column, and after
whatever came before it. -/
theorem readFrom_double (hindent : 0 < indent) (hwidth : indent + 1 ≤ width) (t rest : Text) :
    (∀ column first fresh mode owed, Settles mode owed →
      (t.head? = some (CodePoint.ofChar ' ') → ∀ before start, mode ≠ .lines before start) →
        readFrom true mode
          (double true indent column first fresh t ++ CodePoint.ofChar '"' :: rest) =
          .ok (owed ++ t, rest)) ∧
      (t.head? = some (CodePoint.ofChar ' ') → readFrom true .escape
        (double true indent (indent + 1) false true t ++ CodePoint.ofChar '"' :: rest) =
          .ok (t, rest)) := by
  induction t with
  | nil =>
    refine ⟨fun column first fresh mode owed hmode _ ↦ ?_, fun h ↦ by cases h⟩
    have hstep : step true (CodePoint.ofChar '"') rest mode = .ok (owed, .done) :=
      step_of_settles hmode rfl rfl rest
    rw [double, List.nil_append, readFrom, hstep, List.append_nil]
  | cons c t ih =>
    obtain ⟨hfrom, hescaped⟩ := ih
    -- What follows a character in the value.
    have hvalue (column : Nat) (fresh : Bool) : readFrom true .value
        (double true indent column false fresh t ++ CodePoint.ofChar '"' :: rest) = .ok (t, rest) :=
      hfrom column false fresh .value [] .value fun _ _ _ h ↦ by cases h
    refine ⟨fun column first fresh mode owed hmode hlines ↦ ?_, fun hc ↦ ?_⟩
    · rw [double]
      split
      · next e hescape =>
        dsimp only
        split
        · rw [List.append_assoc, List.append_assoc]
          refine readFrom_escape? hescape hmode
            (readFrom_brokenLine hindent .value (fun hne ↦ ?_) fun hblank ↦ ?_)
          · exact hfrom _ false true _ [] (.lines none) fun h ↦ absurd h hne
          · rw [brokenLine_of_blank hblank]
            exact hescaped hblank
        · rw [List.append_assoc]
          exact readFrom_escape? hescape hmode (hvalue _ true)
      · next hescape =>
        have hsimple := isSimple_of_escape? hescape
        have hordinary {mode : Mode} {owed : Text} (hmode : Settles mode owed) (hne : c ≠ ' ')
            (column : Nat) : readFrom true mode (c :: (double true indent column false false t ++
              CodePoint.ofChar '"' :: rest)) = .ok (owed ++ c :: t, rest) :=
          readFrom_ordinary hmode (isSpace_of_isSimple hsimple hne) (isBreak_of_isSimple hsimple)
            (valueStep_of_escape? hescape hne) (hvalue column false)
        dsimp only
        split
        · rw [List.append_assoc, List.cons_append]
          refine readFrom_brokenLine hindent hmode (fun hne ↦ ?_) fun hblank ↦ ?_
          · exact hordinary (.lines none) (fun h ↦ hne (congrArg some h)) _
          · obtain rfl := Option.some.inj hblank
            exact readFrom_escapedBlank (hvalue _ false)
        · by_cases hc : c = ' '
          · subst hc
            exact readFrom_pending hmode (hlines rfl) fun before ↦
              hfrom _ false false _ _ (.blanks before) fun _ _ _ h ↦ by cases h
          · exact hordinary hmode hc _
    · obtain rfl := Option.some.inj hc
      have hnone : escape? (CodePoint.ofChar ' ') = none := rfl
      rw [double, hnone]
      dsimp only
      rw [if_neg (by simp only [Nat.not_lt.mpr hwidth, decide_false, Bool.and_false,
        Bool.false_eq_true, not_false_eq_true])]
      exact readFrom_escapedBlank (hvalue _ false)

theorem read_double {indent : Nat} (hindent : 0 < indent) (hwidth : indent + 1 ≤ width)
    (column : Nat) (t rest : Text) :
    read true (double true indent column true true t ++ CodePoint.ofChar '"' :: rest) =
      .ok (t, rest) :=
  (readFrom_double hindent hwidth t rest).1 column true true .value [] .value
    fun _ _ _ h ↦ by cases h

/-! ## Between apostrophes -/

theorem hasBlankAtBreak_cons (h : hasBlankAtBreak (c :: t) = false) :
    hasBlankAtBreak t = false ∧
      (isBreak c = true → t.head? ≠ some (CodePoint.ofChar ' ')) ∧
      (c = ' ' → ∀ d, t.head? = some d → isBreak d = false) := by
  cases t with
  | nil =>
    refine ⟨rfl, fun _ h ↦ ?_, fun _ d h ↦ ?_⟩
    · cases h
    · cases h
  | cons d t =>
    simp only [hasBlankAtBreak, someNeighbours, List.tail_cons, List.zip_cons_cons, List.any_cons,
      Bool.or_eq_false_iff, Bool.and_eq_false_iff, decide_eq_false_iff_not] at h
    obtain ⟨⟨hblank, hbreak⟩, hrest⟩ := h
    refine ⟨hrest, fun hc hd ↦ ?_, fun hc e he ↦ ?_⟩
    · obtain rfl := Option.some.inj hd
      rw [hc] at hbreak
      exact hbreak.elim Bool.noConfusion fun h ↦ h rfl
    · obtain rfl := Option.some.inj he
      exact hblank.resolve_left fun h ↦ h hc

/-- The line ends after the first one, and the margin of the line after them. -/
def afterFeed (indent : Nat) (t : Text) : Text :=
  if t.head? = some (CodePoint.ofChar '\n') then single indent 0 (some '\n') t
  else margin indent ++ single indent indent (some '\n') t

theorem single_feed (indent column : Nat) (before : Option CodePoint) (t : Text) :
    single indent column before (CodePoint.ofChar '\n' :: t) =
      (if before = some (CodePoint.ofChar '\n') then [] else [CodePoint.ofChar '\n']) ++
        CodePoint.ofChar '\n' :: afterFeed indent t := by
  rw [single, if_pos rfl, afterFeed]
  dsimp only
  split
  · next hhead =>
    have hhead : t.head? = some (CodePoint.ofChar '\n') := hhead
    rw [if_pos hhead, List.append_assoc]
    rfl
  · next hhead =>
    have hhead : ¬ t.head? = some (CodePoint.ofChar '\n') := hhead
    rw [if_neg hhead, List.append_assoc]
    rfl

/-- A text may come next: what the mode of the reader has to be for a line end, and for a blank. -/
structure Fits (mode : Mode) (before : Option CodePoint) (t : Text) : Prop where
  /-- A line end neither follows another one nor what may be folded. -/
  feed : t.head? = some (CodePoint.ofChar '\n') →
    mode = .value ∧ before ≠ some (CodePoint.ofChar '\n')
  /-- A blank follows the value itself, or other blanks. -/
  blank : t.head? = some (CodePoint.ofChar ' ') →
    mode = .value ∨ before = some (CodePoint.ofChar ' ') ∧ ∃ blanks, mode = .blanks blanks

theorem fits_value {d : CodePoint} (hd : d ≠ '\n') (t : Text) : Fits .value (some d) t :=
  ⟨fun _ ↦ ⟨rfl, fun h ↦ hd (Option.some.inj h)⟩, fun _ ↦ .inl rfl⟩

/-- The text, written between apostrophes, is read back up to `rest`. -/
def ReadsBack (indent : Nat) (rest t : Text) : Prop :=
  ∀ column before mode owed, Settles mode owed → Fits mode before t →
    readFrom false mode (single indent column before t ++ CodePoint.ofChar '\'' :: rest) =
      .ok (owed ++ t, rest)

/-- The text, written after the end of a line, is read back up to `rest`. -/
def ReadsBackAfterFeed (indent : Nat) (rest t : Text) : Prop :=
  readFrom false (.lines none true) (afterFeed indent t ++ CodePoint.ofChar '\'' :: rest) =
    .ok (t, rest)

section Single

variable {indent : Nat}

theorem readsBack_nil (hrest : rest.head? ≠ some (CodePoint.ofChar '\'')) :
    ReadsBack indent rest [] := by
  intro column before mode owed hmode _
  have hstep : step false (CodePoint.ofChar '\'') rest mode = .ok (owed, .more [] .apostrophe) :=
    step_of_settles hmode rfl rfl rest
  have hpast : readFrom false .apostrophe rest = .ok ([], rest) := by
    cases rest with
    | nil => rfl
    | cons c rest =>
      have hc : c ≠ CodePoint.ofChar '\'' := fun h ↦ hrest (congrArg some h)
      rw [readFrom, step, if_neg hc]
  rw [single, List.nil_append]
  have hread := readFrom_more hstep hpast
  rwa [List.append_nil] at hread

/-- One line feed more is written than there are, and the reader holds the first one back. -/
theorem readsBack_feed (h : ReadsBackAfterFeed indent rest t) :
    ReadsBack indent rest (CodePoint.ofChar '\n' :: t) := by
  intro column before mode owed hmode hfits
  obtain ⟨rfl, hbefore⟩ := hfits.feed rfl
  cases hmode
  have hfirst (s : Text) : step false (CodePoint.ofChar '\n') s .value =
      .ok ([], .more [] (.lines (some (CodePoint.ofChar '\n')) true)) := rfl
  have hsecond (s : Text) : step false (CodePoint.ofChar '\n') s
      (.lines (some (CodePoint.ofChar '\n')) true) =
        .ok ([], .more [CodePoint.ofChar '\n'] (.lines none true)) := rfl
  rw [single_feed, if_neg hbefore]
  exact readFrom_more (hfirst _) (readFrom_more (hsecond _) h)

/-- A blank is written as it is, or as the end of a line, which stands for a blank again. -/
theorem readsBack_blank (hindent : 0 < indent) (h : ReadsBack indent rest t)
    (hfeed : t.head? ≠ some (CodePoint.ofChar '\n')) :
    ReadsBack indent rest (CodePoint.ofChar ' ' :: t) := by
  intro column before mode owed hmode hfits
  rw [single, if_neg (by decide)]
  split
  · next hfolds =>
    simp only [folds, Bool.and_eq_true, decide_eq_true_eq] at hfolds
    obtain ⟨⟨-, hbefore⟩, hnext⟩ := hfolds
    obtain rfl := (hfits.blank rfl).resolve_right fun h ↦ hbefore h.1
    cases hmode
    have hstep (s : Text) : step false (CodePoint.ofChar '\n') s .value =
        .ok ([], .more [] (.lines (some (CodePoint.ofChar '\n')) true)) := rfl
    have hfolded : Fits (.lines (some (CodePoint.ofChar '\n')) false)
        (some (CodePoint.ofChar ' ')) t := by
      refine ⟨fun h ↦ absurd h hfeed, fun h ↦ ?_⟩
      rw [h] at hnext
      cases hnext
    have hread := h indent _ _ _ (.lines _) hfolded
    rw [← readFrom_margin hindent _ true, ← List.append_assoc] at hread
    exact readFrom_more (hstep _) hread
  · rw [if_neg (by decide)]
    refine readFrom_pending hmode (fun first start hlines ↦ ?_) fun blanks ↦
      h _ _ _ _ (.blanks blanks) ⟨fun h ↦ absurd h hfeed, fun _ ↦ .inr ⟨rfl, blanks, rfl⟩⟩
    rcases hfits.blank rfl with hvalue | ⟨-, blanks, hblanks⟩
    · rw [hvalue] at hlines
      cases hlines
    · rw [hblanks] at hlines
      cases hlines

/-- A visible character is written as it is; the apostrophe is written twice. -/
theorem readsBack_visible (hsimple : isSimple c = true) (hne : c ≠ ' ')
    (h : ReadsBack indent rest t) : ReadsBack indent rest (c :: t) := by
  intro column before mode owed hmode _
  have hfeed : c ≠ '\n' := by
    rintro rfl
    exact absurd hsimple (by decide)
  have hvalue (column : Nat) : readFrom false .value
      (single indent column (some c) t ++ CodePoint.ofChar '\'' :: rest) = .ok (t, rest) :=
    h column (some c) .value [] .value (fits_value hfeed t)
  have hkept : folds column before c t = false := by
    simp only [folds, hne, decide_false, Bool.false_and]
  rw [single, if_neg hfeed, hkept, if_neg Bool.false_ne_true]
  by_cases hquote : c = '\''
  · subst hquote
    have hfirst (s : Text) : step false (CodePoint.ofChar '\'') s mode =
        .ok (owed, .more [] .apostrophe) := step_of_settles hmode rfl rfl s
    have hsecond (s : Text) : step false (CodePoint.ofChar '\'') s .apostrophe =
        .ok ([], .more [CodePoint.ofChar '\''] .value) := rfl
    have hread := readFrom_more (hfirst _) (readFrom_more (hsecond _) (hvalue (column + 2)))
    rwa [List.append_nil] at hread
  · rw [if_neg hquote]
    have hstep : valueStep false c = .more [c] .value := by
      simp only [valueStep, isSpace_of_isSimple hsimple hne, isBreak_of_isSimple hsimple, hquote,
        decide_false, Bool.and_false, Bool.false_and, Bool.false_eq_true, if_false]
    exact readFrom_ordinary hmode (isSpace_of_isSimple hsimple hne) (isBreak_of_isSimple hsimple)
      hstep (hvalue _)

theorem readsBackAfterFeed_feed (h : ReadsBackAfterFeed indent rest t) :
    ReadsBackAfterFeed indent rest (CodePoint.ofChar '\n' :: t) := by
  have hstep (s : Text) : step false (CodePoint.ofChar '\n') s (.lines none true) =
      .ok ([], .more [CodePoint.ofChar '\n'] (.lines none true)) := rfl
  have hagain : afterFeed indent (CodePoint.ofChar '\n' :: t) =
      CodePoint.ofChar '\n' :: afterFeed indent t :=
    (if_pos rfl).trans (single_feed indent 0 _ t)
  rw [ReadsBackAfterFeed, hagain]
  exact readFrom_more (hstep _) h

theorem readsBackAfterFeed_of_readsBack (hindent : 0 < indent) (h : ReadsBack indent rest t)
    (hfeed : t.head? ≠ some (CodePoint.ofChar '\n'))
    (hblank : t.head? ≠ some (CodePoint.ofChar ' ')) : ReadsBackAfterFeed indent rest t := by
  have hmargin : afterFeed indent t =
      margin indent ++ single indent indent (some (CodePoint.ofChar '\n')) t := if_neg hfeed
  rw [ReadsBackAfterFeed, hmargin, List.append_assoc, readFrom_margin hindent]
  exact h indent _ _ _ (.lines none) ⟨fun h ↦ absurd h hfeed, fun h ↦ absurd h hblank⟩

/-- **A text that is written between apostrophes is read back**, from any column, and after whatever
came before it; and so is what is written after the end of a line. -/
theorem readsBack (hindent : 0 < indent) (ht : Printed t) (hblank : hasBlankAtBreak t = false)
    (hrest : rest.head? ≠ some (CodePoint.ofChar '\'')) :
    ReadsBack indent rest t ∧
      (t.head? ≠ some (CodePoint.ofChar ' ') → ReadsBackAfterFeed indent rest t) := by
  induction t with
  | nil =>
    have hnil : ReadsBack indent rest [] := readsBack_nil hrest
    exact ⟨hnil, readsBackAfterFeed_of_readsBack hindent hnil (fun h ↦ by cases h)⟩
  | cons c t ih =>
    obtain ⟨hc, ht⟩ := List.forall_mem_cons.mp ht
    obtain ⟨hblank, hafterBreak, hafterBlank⟩ := hasBlankAtBreak_cons hblank
    obtain ⟨hwhole, hfeed⟩ := ih ht hblank
    by_cases hline : c = '\n'
    · subst hline
      have hafter := hfeed (hafterBreak rfl)
      exact ⟨readsBack_feed hafter, fun _ ↦ readsBackAfterFeed_feed hafter⟩
    · have hthis : ReadsBack indent rest (c :: t) := by
        by_cases hspace : c = ' '
        · subst hspace
          exact readsBack_blank hindent hwhole fun h ↦ absurd (hafterBlank rfl _ h) (by decide)
        · exact readsBack_visible (hc.resolve_right hline) hspace hwhole
      exact ⟨hthis, readsBackAfterFeed_of_readsBack hindent hthis
        fun h ↦ hline (Option.some.inj h)⟩

theorem read_single (hindent : 0 < indent) (ht : allowsSingle t = true)
    (hrest : rest.head? ≠ some (CodePoint.ofChar '\'')) (column : Nat) :
    read false (single indent column none t ++ CodePoint.ofChar '\'' :: rest) = .ok (t, rest) := by
  have hprinted := printed_of_allowsSingle ht
  rw [allowsSingle, Bool.and_eq_true, Bool.not_eq_true'] at ht
  exact (readsBack hindent hprinted ht.2 hrest).1 column none .value [] .value
    ⟨fun _ ↦ ⟨rfl, fun h ↦ by cases h⟩, fun _ ↦ .inl rfl⟩

end Single

end RouteCatalog.Yaml.Token.Quoted
