import RouteCatalog.Proofs.Yaml.Plain
import RouteCatalog.Proofs.Yaml.Quoted
import RouteCatalog.Proofs.Yaml.Word

/-!
# The tokens of a mapping

A mapping of scalars, written at the margin, is cut into the tokens of its lines (`all_lines`). A
line takes three rounds, one each for its key, its colon and its value; between lines it is only
known where the next word stands (`State.AtLine`), because a plain scalar ends after the line end
and a quoted one before it. The first colon puts the start of the mapping in front of the first key.
-/

namespace RouteCatalog.Yaml.Token

open Style

variable {s : State} {c : CodePoint} {k t u rest next : Text} {place : Place} {cut : List Token}
  {columns : List Nat} {fuel : Nat}

/-! ## Keys -/

/-- A text that is a key as it is. -/
structure IsKey (k : Text) : Prop where
  chars : ∀ c ∈ k, Plain.isKeyChar c = true
  ne_nil : k ≠ []
  /-- The colon after it is not too far from its start. -/
  short : k.length ≤ State.reach

theorem IsKey.isSimple (h : IsKey k) : ∀ c ∈ k, isSimple c = true := fun c hc ↦
  Plain.of_isKeyChar (p := Style.isSimple) (by decide) (h.chars c hc)

/-- The text starts with a character of a key, or is empty. -/
def StartsKey (t : Text) : Prop := ∀ c, t.head? = some c → Plain.isKeyChar c = true

theorem IsKey.startsKey (h : IsKey k) (t : Text) : StartsKey (k ++ t) := by
  obtain ⟨c, u, rfl⟩ := List.exists_cons_of_ne_nil h.ne_nil
  intro d hd
  cases hd
  exact h.chars c List.mem_cons_self

namespace StartsKey

theorem startsWord (h : StartsKey t) : StartsWord t := by
  intro c hc
  have hkey := Plain.of_isKeyChar (p := fun c ↦ isSimple c && c ≠ ' ' && c ≠ '#') (by decide)
    (h c hc)
  simp only [Bool.and_eq_true, decide_eq_true_eq] at hkey
  exact ⟨hkey.1.1, hkey.1.2, hkey.2⟩

theorem startsLine (h : StartsKey t) : Plain.StartsLine t := by
  refine ⟨fun c hc ↦ ?_, ?_⟩
  · obtain ⟨hsimple, hblank, -⟩ := h.startsWord c hc
    exact ⟨hblank, isBreak_of_isSimple hsimple⟩
  · cases t with
    | nil => rfl
    | cons c t =>
      have hkey := Plain.of_isKeyChar
        (p := fun c ↦ CodePoint.ofChar '-' ≠ c && CodePoint.ofChar '.' ≠ c) (by decide) (h c rfl)
      simp only [Bool.and_eq_true, decide_eq_true_eq] at hkey
      have hdashes : Text.startsWith "---" (c :: t) = false :=
        Text.startsWith_cons_of_ne hkey.1 _ _
      have hdots : Text.startsWith "..." (c :: t) = false := Text.startsWith_cons_of_ne hkey.2 _ _
      rw [atDocumentMark, hdashes, hdots]
      rfl

end StartsKey

/-! ## The three rounds of a line -/

namespace State

/-- A line starts, and nothing is open but perhaps the mapping at the margin. -/
def AtLine (s : State) (t : Text) (cut : List Token) (columns : List Nat) : Prop :=
  ∃ place : Place, place.column = 0 ∧ s.toWord = ⟨t, place, cut, columns, true, none, []⟩

theorem AtLine.dropStale (h : s.AtLine t cut columns) : s.dropStale = .ok s := by
  obtain ⟨place, -, hword⟩ := h
  exact dropStale_of_none (congrArg State.candidate hword) (congrArg State.outer hword)

theorem atLine_after_feed (hnext : StartsKey next) (u : Text) :
    AtLine ⟨next, place.after (u ++ [CodePoint.ofChar '\n']), cut, columns, true, none, []⟩
      next cut columns := by
  refine ⟨_, ?_, toWord_of_startsWord hnext.startsWord⟩
  rw [Place.after_append]
  rfl

theorem atLine_at_feed (hnext : StartsKey next) :
    AtLine ⟨CodePoint.ofChar '\n' :: next, place, cut, columns, false, none, []⟩
      next cut columns := by
  have hskip : skipSpace false (CodePoint.ofChar '\n' :: next) = (true, next) := by
    show (true, (skipSpace false next).2) = _
    rw [skipSpace_of_startsWord hnext.startsWord]
  refine ⟨place.after [CodePoint.ofChar '\n'], rfl,
    (toWord_eq hskip rfl fun c hc ↦ ?_).trans rfl⟩
  cases hc
  decide

theorem run_key (hcolumns : columns = [] ∨ columns = [0]) (hk : IsKey k)
    (hs : s.AtLine (k ++ CodePoint.ofChar ':' :: CodePoint.ofChar ' ' :: rest) cut columns) :
    ∃ (place : Place) (isRequired : Bool), place.column = 0 ∧
      run (fuel + 1) s = run fuel ⟨CodePoint.ofChar ':' :: CodePoint.ofChar ' ' :: rest,
        place.after k, .scalar k true :: cut, columns, false,
        some ⟨cut.length, place, isRequired⟩, []⟩ := by
  have hstale := hs.dropStale
  obtain ⟨place, hcolumn, hword⟩ := hs
  refine ⟨place, columns.head? = some place.column, hcolumn, ?_⟩
  obtain ⟨c, t, rfl⟩ := List.exists_cons_of_ne_nil hk.ne_nil
  have hc := Plain.of_isKeyChar (p := fun c ↦ isSimple c && c ≠ ' ' && (c ≠ '-' && c ≠ '.') &&
    (c ≠ '?' && c ≠ ':') && !Style.indicators.contains c) (by decide)
    (hk.chars c List.mem_cons_self)
  simp only [Bool.and_eq_true, decide_eq_true_eq, Bool.not_eq_true'] at hc
  obtain ⟨⟨⟨⟨hsimple, hblank⟩, hmark⟩, hquestion, hcolon⟩, hindicator⟩ := hc
  have hnone (h : c = '?' ∨ c = ':' ∨ c = '-') :
      endsWord (t ++ CodePoint.ofChar ':' :: CodePoint.ofChar ' ' :: rest) = false := by
    rcases h with h | h | h
    · exact absurd h hquestion
    · exact absurd h hcolon
    · exact absurd h hmark.1
  exact run_step hstale hword (dropStale_of_none rfl rfl) rfl (closeTo_eq hcolumns _)
    ((fetch_plain rfl hsimple hblank hindicator hnone fun _ ↦ hmark).trans
      (plain_of_read (addCandidate_of_allowed rfl rfl rfl) (Plain.read_key hk.chars rest) rfl))

/-- A mapping starts at the margin, unless one is open there. -/
theorem openAt_margin {later before : List Token} {token : Token}
    (hcolumns : columns = [] ∨ columns = [0]) :
    openAt ⟨t, place, later ++ before, columns, false, none, []⟩ 0 token before.length =
      ⟨t, place, later ++ if columns = [] then token :: before else before, [0], false, none,
        []⟩ := by
  rcases hcolumns with rfl | rfl
  · have hlength : (later ++ before).length - before.length = later.length := by
      rw [List.length_append, Nat.add_sub_cancel]
    rw [openAt]
    dsimp only
    rw [hlength, List.take_left, List.drop_left]
    rfl
  · rfl

theorem run_colon (hcolumns : columns = [] ∨ columns = [0]) (hk : IsKey k)
    (hcolumn : place.column = 0) (isRequired : Bool) :
    run (fuel + 1) ⟨CodePoint.ofChar ':' :: CodePoint.ofChar ' ' :: rest, place.after k,
        .scalar k true :: cut, columns, false, some ⟨cut.length, place, isRequired⟩, []⟩ =
      run fuel ⟨CodePoint.ofChar ' ' :: rest, (place.after k).after [CodePoint.ofChar ':'],
        .value :: .scalar k true :: .key :: if columns = [] then .blockMap :: cut else cut,
        [0], false, none, []⟩ := by
  generalize hs : (⟨CodePoint.ofChar ':' :: CodePoint.ofChar ' ' :: rest, place.after k,
    .scalar k true :: cut, columns, false, some ⟨cut.length, place, isRequired⟩, []⟩ : State) = s
  have hfresh : s.isStale ⟨cut.length, place, isRequired⟩ = false := by
    have hshort := hk.short
    rw [← hs, isStale, place.after_of_isSimple hk.isSimple]
    dsimp only
    rw [Bool.or_eq_false_iff, decide_eq_false_iff_not, decide_eq_false_iff_not]
    omega
  have hstale : s.dropStale = .ok s := by
    subst hs
    exact dropStale_of_fresh rfl rfl hfresh
  have hword : s.toWord = s := by
    subst hs
    refine toWord_of_startsWord fun c hc ↦ ?_
    cases hc
    decide
  subst hs
  refine run_step hstale hword hstale rfl (closeTo_eq hcolumns _) ?_
  have hends : endsWord (CodePoint.ofChar ' ' :: rest) = true := rfl
  have hlater : (Token.scalar k true :: cut).length - cut.length = 1 := by
    rw [List.length_cons, Nat.add_sub_cancel_left]
  have hopen : openAt ⟨CodePoint.ofChar ':' :: CodePoint.ofChar ' ' :: rest, place.after k,
      [.scalar k true, .key] ++ cut, columns, false, none, []⟩ 0 .blockMap cut.length =
      ⟨CodePoint.ofChar ':' :: CodePoint.ofChar ' ' :: rest, place.after k,
        [.scalar k true, .key] ++ if columns = [] then .blockMap :: cut else cut, [0], false, none,
        []⟩ := openAt_margin hcolumns
  rw [fetch_colon hends, value]
  dsimp only
  rw [hcolumn, hlater]
  exact congrArg Except.ok ((congrArg (emit · _ _) hopen).trans (emit_eq _ rfl))

theorem run_word {s' : State} (hword : StartsWord (c :: u))
    (hfetch : fetch ⟨c :: u, place.after [CodePoint.ofChar ' '], cut, [0], false, none, []⟩ c u =
      .ok s') :
    run (fuel + 1) ⟨CodePoint.ofChar ' ' :: c :: u, place, cut, [0], false, none, []⟩ =
      run fuel s' := by
  have hskip : skipSpace false (CodePoint.ofChar ' ' :: c :: u) = (false, c :: u) :=
    skipSpace_of_startsWord hword
  refine run_step (dropStale_of_none rfl rfl) (toWord_eq hskip rfl fun d hd ↦ ?_)
    (dropStale_of_none rfl rfl) rfl (closeTo_eq (.inr rfl) _) hfetch
  cases hd
  decide

theorem allowsPlain_cons (h : allowsPlain (c :: t) = true) :
    isSimple c = true ∧ c ≠ ' ' ∧ Style.indicators.contains c = false ∧
      (c = '?' ∨ c = ':' ∨ c = '-' → isAlone t = false) := by
  have hsimple := isSimple_of_allowsPlain h c List.mem_cons_self
  simp only [allowsPlain, startsOdd, Bool.and_eq_true, decide_eq_true_eq, Bool.not_eq_true',
    Bool.or_eq_false_iff, Bool.and_eq_false_iff, decide_eq_false_iff_not] at h
  obtain ⟨⟨⟨⟨-, hhead⟩, -⟩, ⟨-, hindicator⟩, halone⟩, -⟩ := h
  refine ⟨hsimple, fun hc ↦ hhead (congrArg some hc), hindicator, fun hc ↦ ?_⟩
  refine halone.resolve_left ?_
  rintro ⟨⟨hquestion, hcolon⟩, hdash⟩
  rcases hc with hc | hc | hc
  · exact hquestion hc
  · exact hcolon hc
  · exact hdash hc

theorem run_plain (column : Nat) (hnext : StartsKey next) (ht : t ≠ [])
    (hallowed : allowsPlain t = true) :
    ∃ s', run (fuel + 1) ⟨CodePoint.ofChar ' ' :: (Style.plain 2 column none t ++
        CodePoint.ofChar '\n' :: next), place, cut, [0], false, none, []⟩ = run fuel s' ∧
      s'.AtLine next (.scalar t true :: cut) [0] := by
  obtain ⟨c, t, rfl⟩ := List.exists_cons_of_ne_nil ht
  obtain ⟨hsimple, hblank, hindicator, halone⟩ := allowsPlain_cons hallowed
  have hcomment : c ≠ '#' := by
    rintro rfl
    exact absurd hindicator (by decide)
  have hread : Plain.read false 1 (Style.plain 2 column none (c :: t) ++
      CodePoint.ofChar '\n' :: next) = ⟨c :: t, true, next⟩ :=
    Plain.read_plain (by decide) (by decide) (by decide) hnext.startsLine hallowed column
  rw [Plain.plain_visible hblank, List.cons_append] at hread ⊢
  generalize hwritten : Style.plain 2 (column + 1) (some c) t = written at hread ⊢
  have hends : endsWord (written ++ CodePoint.ofChar '\n' :: next) = isAlone t := by
    rw [← hwritten]
    exact Plain.endsWord_plain (fun d hd ↦
      isSimple_of_allowsPlain hallowed d (List.mem_cons_of_mem _ hd)) _ _ _
  have hsplit : c :: (written ++ CodePoint.ofChar '\n' :: next) =
      (c :: written ++ [CodePoint.ofChar '\n']) ++ next := by
    rw [List.append_assoc, List.singleton_append, List.cons_append]
  have hfetch : fetch ⟨c :: (written ++ CodePoint.ofChar '\n' :: next),
      place.after [CodePoint.ofChar ' '], cut, [0], false, none, []⟩ c _ = _ :=
    (fetch_plain rfl hsimple hblank hindicator (fun h ↦ hends.trans (halone h))
      fun h ↦ absurd h (Nat.succ_ne_zero _)).trans
      (plain_of_read (addCandidate_of_forbidden rfl) hread hsplit)
  refine ⟨_, run_word (fun d hd ↦ ?_) hfetch, atLine_after_feed hnext _⟩
  cases hd
  exact ⟨hsimple, hblank, hcomment⟩

theorem run_quoted (hc : c = '\'' ∨ c = '"') (hnext : StartsKey next)
    (hread : Quoted.read (c = '"') (u ++ c :: CodePoint.ofChar '\n' :: next) =
      .ok (t, CodePoint.ofChar '\n' :: next)) :
    ∃ s', run (fuel + 1) ⟨CodePoint.ofChar ' ' ::
        ([c] ++ u ++ [c] ++ CodePoint.ofChar '\n' :: next), place, cut, [0], false, none, []⟩ =
        run fuel s' ∧
      s'.AtLine next (.scalar t false :: cut) [0] := by
  have hinside : u ++ c :: CodePoint.ofChar '\n' :: next =
      u ++ [c] ++ CodePoint.ofChar '\n' :: next := List.append_cons u c _
  rw [hinside] at hread
  have hfetch (w : State) : w.fetch c (u ++ [c] ++ CodePoint.ofChar '\n' :: next) =
      w.word (.ok (.scalar t false, CodePoint.ofChar '\n' :: next)) := by
    rw [fetch_quote hc, hread]
    rfl
  refine ⟨_, run_word (fun d hd ↦ ?_) ((hfetch _).trans
    (word_of_read (u := c :: (u ++ [c])) (addCandidate_of_forbidden rfl) rfl)),
    atLine_at_feed hnext⟩
  cases hd
  rcases hc with rfl | rfl
  · decide
  · decide

theorem run_value (isPlain : Bool) (column : Nat) (hnext : StartsKey next)
    (ht : isPlain = true → t ≠ []) :
    ∃ s', run (fuel + 1) ⟨CodePoint.ofChar ' ' :: (Style.value isPlain 2 column t ++
        CodePoint.ofChar '\n' :: next), place, cut, [0], false, none, []⟩ = run fuel s' ∧
      s'.AtLine next (.scalar t (choose isPlain false t = .plain) :: cut) [0] := by
  have hspec := choose_spec isPlain false t
  rw [Style.value]
  cases hchoice : choose isPlain false t with
  | plain =>
    rw [hchoice] at hspec
    exact run_plain column hnext (ht hspec.1) hspec.2
  | single =>
    rw [hchoice] at hspec
    have hquote : CodePoint.ofChar '\n' ≠ CodePoint.ofChar '\'' := by decide
    have hrest : (CodePoint.ofChar '\n' :: next).head? ≠ some (CodePoint.ofChar '\'') := fun h ↦
      hquote (Option.some.inj h)
    exact run_quoted (.inl rfl) hnext (Quoted.read_single (by decide) hspec hrest _)
  | double =>
    exact run_quoted (.inr rfl) hnext (Quoted.read_double (by decide) (by decide) _ t _)

end State

/-! ## Mappings -/

/-- A line of a mapping at the margin. -/
structure Line where
  key : Text
  /-- The scalar may stand without quotes, as far as its tag goes. -/
  isPlain : Bool
  text : Text
  isKey : IsKey key
  /-- A scalar that needs no quotes does not vanish. -/
  visible : isPlain = true → text ≠ []

namespace Line

/-- The line as it is written. -/
def written (l : Line) : Text :=
  l.key ++ ":" ++ " " ++ Style.value l.isPlain 2 (l.key.length + 2) l.text ++ "\n"

/-- The tokens of the line. -/
def tokens (l : Line) : List Token :=
  [.key, .scalar l.key true, .value, .scalar l.text (choose l.isPlain false l.text = .plain)]

theorem written_append (l : Line) (next : Text) :
    l.written ++ next = l.key ++ CodePoint.ofChar ':' :: CodePoint.ofChar ' ' ::
      (Style.value l.isPlain 2 (l.key.length + 2) l.text ++ CodePoint.ofChar '\n' :: next) := by
  simp only [written, List.append_assoc]
  rfl

theorem le_length_written (l : Line) : 3 ≤ l.written.length := by
  have hwritten := congrArg List.length (l.written_append [])
  simp only [List.append_nil, List.length_append, List.length_cons] at hwritten
  omega

theorem printed_written (l : Line) : Printed l.written := by
  have hkey : Printed l.key := fun c hc ↦ .inl (l.isKey.isSimple c hc)
  rw [written]
  exact (((hkey.append (by decide)).append (by decide)).append (printed_value _ _ _ _)).append
    (by decide)

theorem startsKey_lines (lines : List Line) : StartsKey (lines.flatMap written) := by
  cases lines with
  | nil => exact fun c hc ↦ by cases hc
  | cons l lines =>
    rw [List.flatMap_cons, written_append]
    exact l.isKey.startsKey _

theorem le_length_lines (lines : List Line) :
    3 * lines.length ≤ (lines.flatMap written).length := by
  induction lines with
  | nil => exact Nat.le_refl 0
  | cons l lines ih =>
    have := l.le_length_written
    rw [List.length_cons, List.flatMap_cons, List.length_append]
    omega

end Line

namespace State

theorem run_line {l : Line} (hcolumns : columns = [] ∨ columns = [0]) (hnext : StartsKey next)
    (hs : s.AtLine (l.written ++ next) cut columns) (fuel : Nat) :
    ∃ s', run (fuel + 3) s = run fuel s' ∧
      s'.AtLine next (l.tokens.reverse ++ if columns = [] then .blockMap :: cut else cut)
        [0] := by
  rw [l.written_append] at hs
  obtain ⟨place, isRequired, hcolumn, hkey⟩ := run_key hcolumns l.isKey hs
  rw [hkey, run_colon hcolumns l.isKey hcolumn]
  exact run_value l.isPlain _ hnext l.visible

theorem run_lines {lines : List Line} (hfuel : 3 * lines.length < fuel)
    (hs : s.AtLine (lines.flatMap Line.written) cut [0]) :
    run fuel s = cut.reverse ++ lines.flatMap Line.tokens ++ [.blockEnd] := by
  induction lines generalizing s cut fuel with
  | nil =>
    obtain ⟨fuel, rfl⟩ : ∃ f, fuel = f + 1 := ⟨fuel - 1, by omega⟩
    have hstale := hs.dropStale
    obtain ⟨place, hcolumn, hword⟩ := hs
    rw [run, hstale]
    dsimp only
    rw [hword, dropStale_of_none rfl rfl]
    show (Token.blockEnd :: cut).reverse = _
    rw [List.reverse_cons, List.flatMap_nil, List.append_nil]
  | cons l lines ih =>
    rw [List.length_cons] at hfuel
    obtain ⟨fuel, rfl⟩ : ∃ f, fuel = f + 3 := ⟨fuel - 3, by omega⟩
    obtain ⟨s', hrun, hs'⟩ := run_line (.inr rfl) (Line.startsKey_lines lines) hs fuel
    rw [hrun, ih (by omega) hs', if_neg (List.cons_ne_nil _ _), List.reverse_append,
      List.reverse_reverse, List.flatMap_cons]
    simp only [List.append_assoc]

end State

/-- **A mapping is cut into its keys and values.** -/
theorem all_lines {lines : List Line} (hlines : lines ≠ []) :
    all (lines.flatMap Line.written) =
      .blockMap :: (lines.flatMap Line.tokens ++ [.blockEnd]) := by
  have hprinted : Printed (lines.flatMap Line.written) := .flatMap fun l _ ↦ l.printed_written
  have hstart : (State.start (lines.flatMap Line.written)).AtLine
      (lines.flatMap Line.written) [] [] :=
    ⟨.start, rfl, State.toWord_of_startsWord (Line.startsKey_lines lines).startsWord⟩
  have hlength := Line.le_length_lines lines
  rw [all, hprinted.all_isPrintable, if_pos rfl]
  generalize hfuel : (lines.flatMap Line.written).length + 1 = fuel
  obtain ⟨l, lines, rfl⟩ := List.exists_cons_of_ne_nil hlines
  rw [List.length_cons] at hlength
  obtain ⟨fuel, rfl⟩ : ∃ f, fuel = f + 3 := ⟨fuel - 3, by omega⟩
  obtain ⟨s', hrun, hs'⟩ := State.run_line (.inl rfl) (Line.startsKey_lines lines) hstart fuel
  rw [hrun, State.run_lines (by omega) hs', if_pos rfl, List.reverse_append, List.reverse_reverse]
  rfl

end RouteCatalog.Yaml.Token
