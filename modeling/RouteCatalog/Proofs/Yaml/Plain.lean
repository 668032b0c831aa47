import RouteCatalog.Proofs.Yaml.Printed

/-!
# Plain scalars are read

A text that is written plain is read back, however its lines were folded (`Plain.read_plain`), and a
key is read up to its colon (`Plain.read_key`). Inside a chunk the reader takes one character after
the other; between chunks it takes a whole gap, which is either the blanks as they are or the one
blank at which a line was folded. The induction is therefore on the length of the text, with one
case for a visible character and one for a gap.
-/

namespace RouteCatalog.Yaml.Token.Plain

open Style

variable {c d : CodePoint} {s t next : Text} {least fuel indent : Nat}

/-! ## One chunk after the other -/

/-- What is read from inside a chunk, with fuel for the chunks after it. -/
def readOn (least fuel : Nat) (t : Text) : Found :=
  let found := chunks false least fuel (gap (chunk false t).2)
  { found with value := (chunk false t).1 ++ found.value }

theorem read_eq_readOn (least : Nat) (t : Text) : read false least t = readOn least t.length t :=
  rfl

theorem readOn_cons (h : endsAt false c t = false) :
    readOn least fuel (c :: t) =
      { readOn least fuel t with value := c :: (readOn least fuel t).value } := by
  rw [readOn, chunk, h, if_neg Bool.false_ne_true]
  rfl

theorem readOn_of_endsAt (h : endsAt false c t = true) :
    readOn least fuel (c :: t) = chunks false least fuel (gap (c :: t)) := by
  rw [readOn, chunk, h, if_pos rfl]
  rfl

theorem chunks_succ {g : Gap} (htext : g.text ≠ []) (hmark : g.atMark = false)
    (hrest : g.rest = d :: s) (hcomment : d ≠ '#') (hends : endsAt false d s = false)
    (hlow : g.endsLine = true → least ≤ g.column) :
    chunks false least (fuel + 1) g =
      { readOn least fuel g.rest with value := g.text ++ (readOn least fuel g.rest).value } := by
  have hchunk : (chunk false g.rest).1 = d :: (chunk false s).1 := by
    rw [hrest, chunk, hends, if_neg Bool.false_ne_true]
  have hstarts : Text.startsWith "#" g.rest = false := by
    rw [hrest]
    exact Text.startsWith_cons_of_ne (Ne.symm hcomment) _ _
  have hhigh : (g.endsLine && !false && decide (g.column < least)) = false := by
    cases hline : g.endsLine with
    | false => rfl
    | true =>
      have := hlow hline
      simp only [Bool.not_false, Bool.true_and, decide_eq_false_iff_not, Nat.not_lt]
      exact this
  rw [chunks, readOn]
  dsimp only
  rw [hhigh, hmark, hstarts, hchunk, List.isEmpty_eq_false_iff.mpr htext]
  simp only [Bool.or_self, List.isEmpty_cons, Bool.false_eq_true, if_false, List.append_assoc]

/-! ## Gaps -/

/-- The text starts a line that does not belong to the scalar above it: neither a blank, nor an
empty line, nor a mark between documents comes first. -/
structure StartsLine (t : Text) : Prop where
  visible : ∀ c, t.head? = some c → c ≠ ' ' ∧ isBreak c = false
  /-- The line is no mark between documents. -/
  noMark : atDocumentMark t = false

theorem lineEnds_of_startsLine (h : StartsLine t) : lineEnds 0 t = ([], 0, false, t) := by
  cases t with
  | nil => rfl
  | cons c t =>
    obtain ⟨hblank, hbreak⟩ := h.visible c rfl
    rw [lineEnds, h.noMark, Bool.and_false, if_neg Bool.false_ne_true, if_neg hblank, hbreak,
      if_neg Bool.false_ne_true]

theorem lineEnds_margin (hblank : d ≠ ' ') (hbreak : isBreak d = false) (s : Text)
    {column n : Nat} (h : 0 < column + n) :
    lineEnds column (margin n ++ d :: s) = ([], column + n, false, d :: s) := by
  induction n generalizing column with
  | zero =>
    have hne : column ≠ 0 := Nat.pos_iff_ne_zero.mp h
    rw [margin, List.replicate_zero, List.nil_append, lineEnds]
    simp only [hne, hblank, hbreak, decide_false, Bool.false_and, Bool.false_eq_true, if_false,
      Nat.add_zero]
  | succ n ih =>
    have hmark : atDocumentMark (CodePoint.ofChar ' ' :: (margin n ++ d :: s)) = false := rfl
    rw [margin, List.replicate_succ, List.cons_append, lineEnds]
    rw [← margin, hmark, Bool.and_false, if_neg Bool.false_ne_true, if_pos rfl,
      ih (by omega), Nat.add_assoc, Nat.add_comm 1 n]

/-- A gap at the end of a line stands for what its line ends are folded to. -/
theorem gap_of_lineEnds {ends rest : Text} {column : Nat} {atMark : Bool}
    (h : lineEnds 0 t = (ends, column, atMark, rest)) :
    gap (CodePoint.ofChar '\n' :: t) =
      ⟨fold (CodePoint.ofChar '\n') ends, true, column, atMark, rest⟩ := by
  have hgap : gap (CodePoint.ofChar '\n' :: t) =
      (fun found : Text × Nat × Bool × Text ↦
        ⟨fold (CodePoint.ofChar '\n') found.1, true, found.2.1, found.2.2.1, found.2.2.2⟩)
        (lineEnds 0 t) := rfl
  rw [hgap, h]

theorem gap_feed (h : StartsLine next) :
    gap (CodePoint.ofChar '\n' :: next) = ⟨[CodePoint.ofChar ' '], true, 0, false, next⟩ :=
  gap_of_lineEnds (lineEnds_of_startsLine h)

theorem gap_folded (hindent : 0 < indent) (hblank : d ≠ ' ') (hbreak : isBreak d = false)
    (s : Text) : gap (newLine indent ++ d :: s) =
      ⟨[CodePoint.ofChar ' '], true, indent, false, d :: s⟩ := by
  have hends := lineEnds_margin hblank hbreak s (Nat.lt_add_left 0 hindent)
  rw [Nat.zero_add] at hends
  exact gap_of_lineEnds hends

theorem gap_blanks (hblank : d ≠ ' ') (hbreak : isBreak d = false) (n : Nat) (s : Text) :
    gap (margin n ++ d :: s) = ⟨margin n, false, 0, false, d :: s⟩ := by
  have htake : (margin n ++ d :: s).takeWhile (· = CodePoint.ofChar ' ') = margin n := by
    have hall : ∀ a ∈ margin n, decide (a = CodePoint.ofChar ' ') = true := fun a ha ↦
      decide_eq_true (List.eq_of_mem_replicate ha)
    rw [List.takeWhile_append_of_pos hall, List.takeWhile_cons, if_neg (by simpa using hblank),
      List.append_nil]
  have hdrop : (margin n ++ d :: s).drop (margin n).length = d :: s := List.drop_left
  rw [gap, htake, hdrop]
  dsimp only
  rw [hbreak, if_neg Bool.false_ne_true]

/-! ## Texts -/

theorem hasSeparator_cons (h : hasSeparator (c :: t) = false) :
    (c = ':' → isAlone t = false) ∧ (c = ' ' → Text.startsWith "#" t = false) ∧
      hasSeparator t = false := by
  simp only [hasSeparator, Bool.or_eq_false_iff, Bool.and_eq_false_iff,
    decide_eq_false_iff_not] at h
  obtain ⟨⟨hcolon, hcomment⟩, hrest⟩ := h
  refine ⟨fun hc ↦ hcolon.resolve_left (not_not_intro hc), fun hc ↦ ?_, hrest⟩
  subst hc
  exact hcomment.resolve_left (by decide)

theorem hasSeparator_margin {n : Nat}
    (h : hasSeparator (CodePoint.ofChar ' ' :: (margin n ++ d :: s)) = false) :
    d ≠ '#' ∧ hasSeparator (d :: s) = false := by
  induction n with
  | zero =>
    obtain ⟨-, hcomment, hrest⟩ := hasSeparator_cons h
    refine ⟨?_, hrest⟩
    rintro rfl
    have hstarts : Text.startsWith "#" (CodePoint.ofChar '#' :: s) = true := rfl
    exact absurd (hstarts.symm.trans (hcomment rfl)) (by decide)
  | succ n ih => exact ih (hasSeparator_cons h).2.2

/-- A text that does not end in a blank has something else after its blanks. -/
theorem exists_margin (hne : t ≠ []) (h : t.getLast? ≠ some (CodePoint.ofChar ' ')) :
    ∃ (n : Nat) (d : CodePoint) (s : Text), t = margin n ++ d :: s ∧ d ≠ ' ' := by
  induction t with
  | nil => exact absurd rfl hne
  | cons c t ih =>
    by_cases hc : c = ' '
    · subst hc
      cases t with
      | nil => exact absurd rfl h
      | cons d t =>
        rw [List.getLast?_cons_cons] at h
        obtain ⟨n, e, s, heq, he⟩ := ih (List.cons_ne_nil d t) h
        exact ⟨n + 1, e, s, congrArg (CodePoint.ofChar ' ' :: ·) heq, he⟩
    · exact ⟨0, c, t, rfl, hc⟩

theorem plain_margin (indent column n : Nat) (t : Text) :
    plain indent column (some (CodePoint.ofChar ' ')) (margin n ++ t) =
      margin n ++ plain indent (column + n) (some (CodePoint.ofChar ' ')) t := by
  induction n generalizing column with
  | zero => rfl
  | succ n ih =>
    have hkept : folds column (some (CodePoint.ofChar ' ')) (CodePoint.ofChar ' ')
        (margin n ++ t) = false :=
      Bool.and_eq_false_iff.mpr (.inl (Bool.and_eq_false_iff.mpr (.inr rfl)))
    rw [margin, List.replicate_succ, List.cons_append, plain, ← margin, hkept,
      if_neg Bool.false_ne_true, ih, List.cons_append, Nat.add_right_comm, Nat.add_assoc]

theorem endsWord_plain (h : ∀ c ∈ t, isSimple c = true) (column : Nat)
    (before : Option CodePoint) (next : Text) :
    endsWord (plain indent column before t ++ CodePoint.ofChar '\n' :: next) = isAlone t := by
  cases t with
  | nil => rfl
  | cons c t =>
    rw [plain]
    split
    · next hfolds =>
      simp only [folds, Bool.and_eq_true, decide_eq_true_eq] at hfolds
      obtain ⟨⟨⟨⟨rfl, -⟩, -⟩, -⟩, -⟩ := hfolds
      rfl
    · rfl

theorem endsAt_plain (hc : isSimple c = true) (hne : c ≠ ' ') (ht : ∀ c ∈ t, isSimple c = true)
    (hcolon : c = ':' → isAlone t = false) (column : Nat) (before : Option CodePoint)
    (next : Text) : endsAt false c (plain indent column before t ++ CodePoint.ofChar '\n' :: next) =
      false := by
  rw [endsAt, endsWord_plain ht, isSpace_of_isSimple hc hne, isBreak_of_isSimple hc]
  by_cases h : c = ':'
  · rw [hcolon h]
    simp only [Bool.false_and, Bool.or_self, Bool.and_false]
  · simp only [h, decide_false, Bool.false_and, Bool.or_self]

/-- The text, written plain, is read back up to the next line. -/
def ReadsBack (least indent fuel : Nat) (next t : Text) : Prop :=
  ∀ column before,
    readOn least fuel (plain indent column before t ++ CodePoint.ofChar '\n' :: next) =
      ⟨t, true, next⟩

theorem plain_visible (hne : c ≠ ' ') (column : Nat) (before : Option CodePoint) (t : Text) :
    plain indent column before (c :: t) = c :: plain indent (column + 1) (some c) t := by
  have hkept : folds column before c t = false := by
    simp only [folds, hne, decide_false, Bool.false_and]
  rw [plain, hkept, if_neg Bool.false_ne_true]

theorem readsBack_nil (hleast : 0 < least) (hnext : StartsLine next) :
    ReadsBack least indent fuel next [] := by
  intro column before
  have hends : endsAt false (CodePoint.ofChar '\n') next = true := rfl
  rw [plain, List.nil_append, readOn_of_endsAt hends, gap_feed hnext]
  cases fuel with
  | zero => rfl
  | succ fuel =>
    have hlow : decide (0 < least) = true := decide_eq_true hleast
    rw [chunks]
    simp only [hlow, Bool.not_false, Bool.and_self, Bool.or_true, Bool.true_or, if_true]

theorem readsBack_visible (ht : ∀ a ∈ c :: t, isSimple a = true) (hne : c ≠ ' ')
    (hcolon : c = ':' → isAlone t = false) (h : ReadsBack least indent fuel next t) :
    ReadsBack least indent fuel next (c :: t) := by
  intro column before
  obtain ⟨hc, ht⟩ := List.forall_mem_cons.mp ht
  rw [plain_visible hne, List.cons_append, readOn_cons (endsAt_plain hc hne ht hcolon _ _ next),
    h (column + 1) (some c)]

theorem readsBack_gap (hindent : 0 < indent) (hle : least ≤ indent)
    (ht : ∀ a ∈ d :: s, isSimple a = true) (hne : d ≠ ' ') (hcomment : d ≠ '#')
    (hcolon : d = ':' → isAlone s = false) (h : ReadsBack least indent fuel next (d :: s))
    (n : Nat) :
    ReadsBack least indent (fuel + 1) next (CodePoint.ofChar ' ' :: (margin n ++ d :: s)) := by
  intro column before
  obtain ⟨hd, hs⟩ := List.forall_mem_cons.mp ht
  have hbreak := isBreak_of_isSimple hd
  -- After the gap the scalar goes on with what is written of the rest.
  have hresume {g : Gap} (column : Nat) (before : Option CodePoint) (htext : g.text ≠ [])
      (hmark : g.atMark = false) (hlow : g.endsLine = true → least ≤ g.column)
      (hrest : g.rest =
        d :: (plain indent (column + 1) (some d) s ++ CodePoint.ofChar '\n' :: next)) :
      chunks false least (fuel + 1) g = ⟨g.text ++ d :: s, true, next⟩ := by
    have hread := h column before
    rw [plain_visible hne, List.cons_append, ← hrest] at hread
    rw [chunks_succ htext hmark hrest hcomment (endsAt_plain hd hne hs hcolon _ _ next) hlow, hread]
  rw [plain]
  split
  · next hfolds =>
    cases n with
    | succ n =>
      simp only [folds, Bool.and_eq_true] at hfolds
      cases hfolds.2
    | zero =>
      have hends (t : Text) : endsAt false (CodePoint.ofChar '\n') t = true := rfl
      have hgap := gap_folded hindent hne hbreak
        (plain indent (indent + 1) (some d) s ++ CodePoint.ofChar '\n' :: next)
      rw [margin, List.replicate_zero, List.nil_append, plain_visible hne, List.append_assoc,
        List.cons_append]
      rw [newLine, List.cons_append, readOn_of_endsAt (hends _), ← List.cons_append, ← newLine,
        hgap]
      exact hresume indent (some (CodePoint.ofChar ' ')) (List.cons_ne_nil _ _) rfl
        (fun _ ↦ hle) rfl
  · have hends (t : Text) : endsAt false (CodePoint.ofChar ' ') t = true := rfl
    have hgap := gap_blanks hne hbreak (n + 1)
      (plain indent (column + 1 + n + 1) (some d) s ++ CodePoint.ofChar '\n' :: next)
    rw [margin, List.replicate_succ, ← margin, List.cons_append] at hgap
    rw [plain_margin, plain_visible hne, List.cons_append, List.append_assoc, List.cons_append,
      readOn_of_endsAt (hends _), hgap]
    exact hresume _ (some (CodePoint.ofChar ' ')) (List.cons_ne_nil _ _) rfl
      (fun h ↦ by cases h) rfl

/-- **A text that is written plain is read back**, up to the next line. -/
theorem readsBack (hindent : 0 < indent) (hleast : 0 < least) (hle : least ≤ indent)
    (hnext : StartsLine next) (ht : ∀ c ∈ t, isSimple c = true)
    (hlast : t.getLast? ≠ some (CodePoint.ofChar ' ')) (hseparator : hasSeparator t = false)
    (hfuel : t.length ≤ fuel) : ReadsBack least indent fuel next t := by
  induction hn : t.length using Nat.strongRecOn generalizing t fuel with
  | ind n ih =>
    subst hn
    cases t with
    | nil => exact readsBack_nil hleast hnext
    | cons c t =>
      have htail := (List.forall_mem_cons.mp ht).2
      obtain ⟨hcolon, -, hrest⟩ := hasSeparator_cons hseparator
      rw [List.length_cons] at hfuel
      by_cases hne : t = []
      · subst hne
        have hblank : c ≠ ' ' := by
          rintro rfl
          exact hlast rfl
        exact readsBack_visible ht hblank hcolon (readsBack_nil hleast hnext)
      have hlastTail : t.getLast? ≠ some (CodePoint.ofChar ' ') := by
        obtain ⟨d, s, rfl⟩ := List.exists_cons_of_ne_nil hne
        rwa [List.getLast?_cons_cons] at hlast
      by_cases hblank : c = ' '
      · subst hblank
        obtain ⟨n, d, s, rfl, hd⟩ := exists_margin hne hlastTail
        obtain ⟨hcomment, hrest⟩ := hasSeparator_margin hseparator
        have hsimple : ∀ c ∈ d :: s, isSimple c = true := fun c hc ↦
          htail c (List.mem_append_right _ hc)
        rw [List.getLast?_append_of_ne_nil _ (List.cons_ne_nil d s)] at hlastTail
        rw [List.length_append] at hfuel
        obtain ⟨fuel, rfl⟩ : ∃ f, fuel = f + 1 := ⟨fuel - 1, by omega⟩
        have hshorter : (d :: s).length <
            (CodePoint.ofChar ' ' :: (margin n ++ d :: s)).length := by
          simp only [List.length_cons, List.length_append]
          omega
        exact readsBack_gap hindent hle hsimple hd hcomment (hasSeparator_cons hrest).1
          (ih (d :: s).length hshorter hsimple hlastTail hrest (by omega) rfl) n
      · exact readsBack_visible ht hblank hcolon
          (ih t.length (by simp) htail hlastTail hrest (Nat.le_of_succ_le hfuel) rfl)

theorem length_le_plain (indent column : Nat) (before : Option CodePoint) (t : Text) :
    t.length ≤ (plain indent column before t).length := by
  induction t generalizing column before with
  | nil => exact Nat.le_refl 0
  | cons c t ih =>
    rw [plain]
    split
    · have := ih indent (some c)
      rw [List.length_append, newLine, List.length_cons, List.length_cons]
      omega
    · exact Nat.succ_le_succ (ih _ _)

theorem read_plain (hindent : 0 < indent) (hleast : 0 < least) (hle : least ≤ indent)
    (hnext : StartsLine next) (ht : allowsPlain t = true) (column : Nat) :
    read false least (plain indent column none t ++ CodePoint.ofChar '\n' :: next) =
      ⟨t, true, next⟩ := by
  have hsimple := isSimple_of_allowsPlain ht
  simp only [allowsPlain, Bool.and_eq_true, decide_eq_true_eq, Bool.not_eq_true'] at ht
  obtain ⟨⟨⟨-, hlast⟩, -⟩, hseparator⟩ := ht
  rw [read_eq_readOn]
  refine readsBack hindent hleast hle hnext hsimple hlast hseparator ?_ column none
  rw [List.length_append]
  exact Nat.le_add_right_of_le (length_le_plain indent column none t)

/-! ## Keys -/

/-- A character that a key may have anywhere: a letter of ASCII or an underscore. -/
def isKeyChar (c : CodePoint) : Bool := c.isAsciiLetter || c = '_'

/-- What holds of all letters and the underscore, as a check of ASCII shows, holds of the characters
of a key. -/
theorem of_isKeyChar {p : CodePoint → Bool}
    (h : ∀ n < 0x80, isKeyChar (.ofNat n) = true → p (.ofNat n) = true)
    (hc : isKeyChar c = true) : p c = true := by
  have hlow : c.toNat < 0x80 := by
    simp only [isKeyChar, CodePoint.isAsciiLetter, CodePoint.between, Bool.or_eq_true,
      Bool.and_eq_true, decide_eq_true_eq] at hc
    rcases hc with (hc | hc) | rfl
    · omega
    · omega
    · decide
  exact CodePoint.of_ascii hlow h hc

theorem read_key (hkey : ∀ c ∈ t, isKeyChar c = true) (rest : Text) :
    read false least (t ++ CodePoint.ofChar ':' :: CodePoint.ofChar ' ' :: rest) =
      ⟨t, false, CodePoint.ofChar ':' :: CodePoint.ofChar ' ' :: rest⟩ := by
  have hends (c : CodePoint) (hc : isKeyChar c = true) (s : Text) : endsAt false c s = false := by
    have hnone := of_isKeyChar (p := fun c ↦ !isSpace c && !isBreak c && c ≠ ':') (by decide) hc
    simp only [Bool.and_eq_true, Bool.not_eq_true', decide_eq_true_eq] at hnone
    simp only [endsAt, hnone, decide_false, Bool.false_and, Bool.or_self]
  rw [read_eq_readOn]
  generalize (t ++ CodePoint.ofChar ':' :: CodePoint.ofChar ' ' :: rest).length = fuel
  induction t with
  | nil =>
    have hcolon : endsAt false (CodePoint.ofChar ':') (CodePoint.ofChar ' ' :: rest) = true := rfl
    have hgap := gap_blanks (d := ':') (by decide) (by decide) 0 (CodePoint.ofChar ' ' :: rest)
    rw [List.nil_append, readOn_of_endsAt hcolon]
    rw [margin, List.replicate_zero, List.nil_append] at hgap
    rw [hgap]
    cases fuel with
    | zero => rfl
    | succ fuel => rfl
  | cons c t ih =>
    obtain ⟨hc, ht⟩ := List.forall_mem_cons.mp hkey
    rw [List.cons_append, readOn_cons (hends c hc _), ih ht]

end RouteCatalog.Yaml.Token.Plain
