import RouteCatalog.Proofs.Text.Search
import RouteCatalog.Proofs.Text.Spacing

/-!
# Line feeds put into a text

Line feeds are put in at the start of a text or just after a line feed. From any place before that,
the two texts differ in how many line feeds follow a line feed (`Text.Spread`); from any place after
it, they are the same. A pattern that recognises the same in both, unless its value is broken
(`Pattern.Spreads`), has the same occurrences in both, at their places
(`Pattern.Spreads.occurrences_insert`).
-/

namespace RouteCatalog

namespace Text

/-! ## Texts that differ in line feeds -/

/-- A number of line feeds. -/
def lineFeeds (k : Nat) : Text := List.replicate k '\n'

/-- Before `tail` there are `m` line feeds in the one text and `n` in the other, after one that both
have; or both are the same end of `tail`. -/
def Spread (tail : Text) (m n : Nat) (t t' : Text) : Prop :=
  (t' = t ∧ t.length ≤ tail.length) ∨
    ∃ x : Text, t = x ++ CodePoint.ofChar '\n' :: (lineFeeds m ++ tail) ∧
      t' = x ++ CodePoint.ofChar '\n' :: (lineFeeds n ++ tail)

variable {tail t t' : Text} {m n : Nat}

theorem Spread.symm (h : Spread tail m n t t') : Spread tail n m t' t :=
  h.imp (fun ⟨heq, hle⟩ ↦ ⟨heq.symm, heq ▸ hle⟩) fun ⟨x, ht, ht'⟩ ↦ ⟨x, ht', ht⟩

theorem trimLeft_lineFeeds (k : Nat) (t : Text) : (lineFeeds k ++ t).trimLeft = t.trimLeft :=
  List.dropWhile_append_of_pos fun c hc ↦ by
    rw [List.eq_of_mem_replicate hc]
    decide

theorem exists_of_lineFeeds_append {c : CodePoint} (hc : c ≠ CodePoint.ofChar '\n') {x rest : Text}
    (h : lineFeeds m ++ tail = x ++ c :: rest) :
    ∃ y, x = lineFeeds m ++ y ∧ tail = y ++ c :: rest := by
  rcases List.append_eq_append_iff.mp h with ⟨y, rfl, htail⟩ | ⟨y, hfeeds, htail⟩
  · exact ⟨y, rfl, htail⟩
  · cases y with
    | nil => exact ⟨[], by rw [List.append_nil, hfeeds, List.append_nil], htail.symm⟩
    | cons d y =>
      obtain ⟨rfl, -⟩ := List.cons.inj htail
      exact absurd (List.eq_of_mem_replicate (hfeeds ▸ List.mem_append_right x List.mem_cons_self))
        hc

theorem respacing_spread (tail : Text) (m n : Nat) : Respacing (Spread tail m n) where
  head {c t t'} h := by
    rcases h with ⟨rfl, -⟩ | ⟨x, ht, rfl⟩
    · exact ⟨t, rfl⟩
    · cases x with
      | nil => exact ⟨_, congrArg (· :: (lineFeeds n ++ tail)) (List.cons.inj ht).1.symm⟩
      | cons d x => exact ⟨_, congrArg (· :: _) (List.cons.inj ht).1.symm⟩
  tail {c t s} hc h := by
    rcases h with ⟨heq, hle⟩ | ⟨x, ht, hs⟩
    · exact .inl ⟨(List.cons.inj heq).2, (Nat.le_succ _).trans hle⟩
    · cases x with
      | nil => exact absurd (List.cons.inj ht).1 hc
      | cons d x => exact .inr ⟨x, (List.cons.inj ht).2, (List.cons.inj hs).2⟩
  trim {t t'} h := by
    rcases h with ⟨rfl, hle⟩ | ⟨x, rfl, rfl⟩
    · exact .inl ⟨rfl, (List.dropWhile_suffix _).length_le.trans hle⟩
    · induction x with
      | nil =>
        have htrim (k : Nat) :
            trimLeft (CodePoint.ofChar '\n' :: (lineFeeds k ++ tail)) = tail.trimLeft :=
          trimLeft_lineFeeds (k + 1) tail
        rw [List.nil_append, List.nil_append, htrim, htrim]
        exact .inl ⟨rfl, (List.dropWhile_suffix _).length_le⟩
      | cons c x ih =>
        by_cases hc : c.isBlank = true
        · rw [trimLeft, trimLeft, List.cons_append, List.cons_append,
            List.dropWhile_cons_of_pos hc, List.dropWhile_cons_of_pos hc]
          exact ih
        · rw [trimLeft, trimLeft, List.cons_append, List.cons_append,
            List.dropWhile_cons_of_neg hc, List.dropWhile_cons_of_neg hc]
          exact .inr ⟨c :: x, rfl, rfl⟩

theorem Spread.declines {β : Type} {S : β → β → Prop} {f : Text → Option β}
    (hkeeps : Keeps (Spread tail n m) S f) (h : Spread tail m n t t') (hnone : f t = none) :
    f t' = none := hkeeps.declines Spread.symm h hnone

theorem keeps_first?_spread {α : Type} {p : Pattern α}
    {S : Nat → Nat → α × Text → α × Text → Prop}
    (hany : ∀ before before' t, p before t = p before' t)
    (hblank : ∀ c t, c.isBlank = true → p none (c :: t) = none)
    (hkeeps : ∀ m n, Keeps (Spread tail m n) (S m n) (p none)) (m n : Nat) :
    Keeps (Spread tail m n) (S m n) (p.first? none) :=
  (respacing_spread tail m n).keeps_first? hany hblank (hkeeps m n) fun _ _ ↦
    Spread.declines (hkeeps n m)

/-! ## Places -/

/-- The place that the character at a place has after `k` characters are put in. -/
def below (place k i : Nat) : Nat := if i < place then i else i + k

theorem below_of_lt {place i : Nat} (k : Nat) (h : i < place) : below place k i = i := if_pos h

theorem below_of_le {place i : Nat} (k : Nat) (h : place ≤ i) : below place k i = i + k :=
  if_neg (Nat.not_lt.mpr h)

theorem below_lt_below {place k i j : Nat} : below place k i < below place k j ↔ i < j := by
  rw [below, below]
  split <;> split <;> omega

theorem exists_eq_below {place k i : Nat} (h : ¬ (place ≤ i ∧ i < place + k)) :
    ∃ j, i = below place k j := by
  by_cases hi : i < place
  · exact ⟨i, (if_pos hi).symm⟩
  · exact ⟨i - k, by rw [below_of_le k (by omega)]; omega⟩

end Text

namespace Pattern

open Text

variable {α : Type} {p : Pattern α} {content : Text} {o : Occurrence α}

theorem from?_eq_some_iff {k : Nat} : p.from? content k = some o ↔
    ∃ i, k ≤ i ∧ i < content.length ∧ p.at? content i = some o ∧
      ∀ j, k ≤ j → j < i → p.at? content j = none := by
  rw [from?, List.findSome?_eq_some_iff]
  constructor
  · rintro ⟨before, i, after, hrange, hat, hnone⟩
    obtain ⟨n, hn, rfl, hafter⟩ := List.range'_eq_append_iff.mp hrange
    have hi : i = k + n := by
      cases hlength : content.length - k - n with
      | zero => rw [hlength] at hafter; cases hafter
      | succ l =>
        rw [hlength, List.range'_succ] at hafter
        rw [(List.cons.inj hafter).1, Nat.mul_one]
    subst hi
    have hlt : n < content.length - k := by
      by_contra hge
      rw [show content.length - k - n = 0 by omega] at hafter
      cases hafter
    exact ⟨k + n, Nat.le_add_right k n, by omega, hat, fun j hj hlt ↦
      hnone j (List.mem_range'_1.mpr ⟨hj, hlt⟩)⟩
  · rintro ⟨i, hk, hi, hat, hnone⟩
    refine ⟨List.range' k (i - k), i, List.range' (i + 1) (content.length - i - 1), ?_, hat, ?_⟩
    · refine List.range'_eq_append_iff.mpr ⟨i - k, by omega, rfl, ?_⟩
      rw [Nat.mul_one, Nat.add_sub_cancel' hk, show content.length - k - (i - k) =
        content.length - i - 1 + 1 by omega, List.range'_succ]
    · intro j hj
      obtain ⟨hkj, hj⟩ := List.mem_range'_1.mp hj
      exact hnone j hkj (by omega)

/-- An occurrence after `k` characters are put in at a place. -/
def moved (place k : Nat) (o : Occurrence α) : Occurrence α :=
  ⟨below place k o.start, below place k o.stop - below place k o.start, o.value⟩

@[simp] theorem moved_start (place k : Nat) (o : Occurrence α) :
    (moved place k o).start = below place k o.start := rfl

@[simp] theorem moved_value (place k : Nat) (o : Occurrence α) :
    (moved place k o).value = o.value := rfl

theorem moved_stop {place k : Nat} (h : o.start ≤ o.stop) :
    (moved place k o).stop = below place k o.stop := by
  have hle : below place k o.start ≤ below place k o.stop := by
    rcases Nat.lt_or_eq_of_le h with hlt | heq
    · exact (below_lt_below.mpr hlt).le
    · rw [heq]
  exact Nat.add_sub_cancel' hle

/-- Line feeds that are put in after a line feed change a value only if they break it. Whether they
do depends on the character before, the text and the number of characters after the line feeds. -/
structure Spreads (p : Pattern α) (Broken : Option CodePoint → Text → Nat → Prop) : Prop where
  /-- The same is recognised, unless it is broken. -/
  keeps : ∀ {tail m n before t t' v rest}, Spread tail m n t t' → p before t = some (v, rest) →
    ∃ v' rest', p before t' = some (v', rest') ∧ Spread tail m n rest rest' ∧
      (v' = v ∨ Broken before t tail.length)
  /-- Nothing starts with a line feed. -/
  feed : ∀ before t, p before (CodePoint.ofChar '\n' :: t) = none
  /-- What may start a text may follow a line feed. -/
  start : ∀ t, p (some '\n') t = p none t

namespace Spreads

variable {Broken : Option CodePoint → Text → Nat → Prop} {head tail : Text} {k i : Nat}

section Offsets

variable (hp : p.Spreads Broken) (hline : head = [] ∨ head.getLast? = some (CodePoint.ofChar '\n'))

theorem drop_below_of_le (hi : head.length ≤ i) :
    (head ++ (lineFeeds k ++ tail)).drop (i + k) = (head ++ tail).drop i := by
  have hlength : (lineFeeds k).length = k := List.length_replicate
  rw [List.drop_append, List.drop_append, List.drop_append, hlength,
    List.drop_eq_nil_of_le (by omega : head.length ≤ i + k),
    List.drop_eq_nil_of_le (by omega : head.length ≤ i),
    List.drop_eq_nil_of_le (by omega : (lineFeeds k).length ≤ i + k - head.length)]
  exact congrArg (tail.drop ·) (by omega)

include hline in
theorem spread_drop (hi : i < head.length) :
    Spread tail 0 k ((head ++ tail).drop i) ((head ++ (lineFeeds k ++ tail)).drop i) := by
  obtain ⟨front, hfront⟩ := List.getLast?_eq_some_iff.mp (hline.resolve_left fun hnil ↦ by
    rw [hnil] at hi
    exact Nat.not_lt_zero _ hi)
  subst hfront
  have hle : i ≤ front.length := by
    rw [List.length_append] at hi
    exact Nat.lt_succ_iff.mp hi
  refine .inr ⟨front.drop i, ?_, ?_⟩
  · rw [List.append_assoc, List.drop_append_of_le_length hle]
    rfl
  · rw [List.append_assoc, List.drop_append_of_le_length hle]
    rfl

include hp hline in
theorem before_below (i : Nat) (t : Text) :
    p ((head ++ (lineFeeds k ++ tail)).take (head.length + i + k)).getLast? t =
      p ((head ++ tail).take (head.length + i)).getLast? t := by
  have hlength : (lineFeeds k).length = k := List.length_replicate
  have hbelow : (head ++ (lineFeeds k ++ tail)).take (head.length + i + k) =
      head ++ (lineFeeds k ++ tail.take i) := by
    rw [Nat.add_assoc, List.take_length_add_append, Nat.add_comm i k, List.take_append, hlength,
      Nat.add_sub_cancel_left, List.take_of_length_le (by omega)]
  rw [hbelow, List.take_length_add_append, List.getLast?_append, List.getLast?_append,
    List.getLast?_append, lineFeeds, List.getLast?_replicate]
  cases (tail.take i).getLast? with
  | some c => rfl
  | none =>
    rw [Option.none_or, Option.none_or]
    split
    · rw [Option.none_or]
    · rw [Option.some_or]
      rcases hline with rfl | hlast
      · exact hp.start t
      · rw [hlast]

theorem length_insert : (head ++ (lineFeeds k ++ tail)).length = (head ++ tail).length + k := by
  have hlength : (lineFeeds k).length = k := List.length_replicate
  simp only [List.length_append, hlength]
  omega

include hp hline in
theorem at?_below_of_le (hi : head.length ≤ i) :
    p.at? (head ++ (lineFeeds k ++ tail)) (i + k) =
      (p.at? (head ++ tail) i).map (moved head.length k) := by
  obtain ⟨j, rfl⟩ := Nat.exists_eq_add_of_le hi
  rw [at?, at?, drop_below_of_le hi, before_below hp hline, Option.map_map, length_insert]
  refine congrArg (Option.map · _) (funext fun (v, rest) ↦ ?_)
  rw [Function.comp_apply, moved, Occurrence.stop]
  dsimp only
  rw [below_of_le k hi, below_of_le k (Nat.le_add_right_of_le hi)]
  refine congrArg (fun n ↦ Occurrence.mk (head.length + j + k) n v) ?_
  omega

include hp hline in
theorem at?_eq_none_of_lt (hi : i < head.length) (h : p.at? (head ++ tail) i = none) :
    p.at? (head ++ (lineFeeds k ++ tail)) i = none := by
  rw [at?, Option.map_eq_none_iff, List.take_append_of_le_length hi.le] at h ⊢
  by_contra hsome
  obtain ⟨⟨v, rest⟩, hfound⟩ := Option.ne_none_iff_exists'.mp hsome
  obtain ⟨v', rest', hback, -, -⟩ := hp.keeps (spread_drop hline hi).symm hfound
  rw [h] at hback
  cases hback

include hp hline in
theorem at?_eq_some_of_lt (hend : p.LeavesEnd) (hi : i < head.length)
    (h : p.at? (head ++ tail) i = some o)
    (hwhole : ¬ Broken ((head ++ tail).take i).getLast? ((head ++ tail).drop i) tail.length) :
    p.at? (head ++ (lineFeeds k ++ tail)) i = some (moved head.length k o) := by
  obtain ⟨⟨v, rest⟩, hfound, rfl⟩ := Option.map_eq_some_iff.mp h
  obtain ⟨v', rest', hfound', hspread, hv⟩ := hp.keeps (spread_drop (k := k) hline hi) hfound
  obtain rfl := hv.resolve_right hwhole
  have hrest := (hend hfound).length_le
  rw [List.length_drop] at hrest
  rw [List.take_append_of_le_length hi.le] at hfound'
  rw [at?, List.take_append_of_le_length hi.le, hfound', Option.map_some, length_insert]
  -- What follows goes on before the line feeds, or lies behind them.
  have hlength : rest'.length = rest.length ∧ rest.length ≤ tail.length ∨
      rest'.length = rest.length + k ∧ tail.length < rest.length := by
    rcases hspread with ⟨rfl, hle⟩ | ⟨x, rfl, rfl⟩
    · exact .inl ⟨rfl, hle⟩
    · refine .inr ?_
      simp only [List.length_append, List.length_cons, lineFeeds, List.length_replicate]
      omega
  rw [List.length_append] at hrest ⊢
  rw [moved, Occurrence.stop]
  dsimp only
  rw [below_of_lt k hi]
  refine congrArg (fun n ↦ some (Occurrence.mk i n v')) ?_
  rcases hlength with ⟨hsame, hle⟩ | ⟨hmore, hlt⟩
  · rw [below_of_le k (by omega)]
    omega
  · rw [below_of_lt k (by omega)]
    omega

include hp in
theorem at?_feed (hi : head.length ≤ i) (hlt : i < head.length + k) :
    p.at? (head ++ (lineFeeds k ++ tail)) i = none := by
  obtain ⟨j, rfl⟩ := Nat.exists_eq_add_of_le hi
  obtain ⟨l, hl⟩ : ∃ l, k = j + (l + 1) := ⟨k - j - 1, by omega⟩
  have hfeed : (head ++ (lineFeeds k ++ tail)).drop (head.length + j) =
      CodePoint.ofChar '\n' :: (lineFeeds l ++ tail) := by
    rw [List.drop_length_add_append, lineFeeds, hl, List.replicate_add, List.append_assoc,
      List.drop_left' List.length_replicate]
    rfl
  rw [at?, hfeed, hp.feed, Option.map_none]

include hp hline in
theorem at?_below_eq_none (h : p.at? (head ++ tail) i = none) :
    p.at? (head ++ (lineFeeds k ++ tail)) (below head.length k i) = none := by
  rw [below]
  split
  · next hi => exact at?_eq_none_of_lt hp hline hi h
  · next hi => rw [at?_below_of_le hp hline (Nat.le_of_not_lt hi), h, Option.map_none]

end Offsets

section Occurrences

variable (hp : p.Spreads Broken) (hend : p.LeavesEnd)
  (hline : head = [] ∨ head.getLast? = some (CodePoint.ofChar '\n'))
include hp hline

theorem from?_below_eq_none (h : p.from? (head ++ tail) i = none) :
    p.from? (head ++ (lineFeeds k ++ tail)) (below head.length k i) = none := by
  rw [from?_eq_none_iff] at h ⊢
  intro j hj hlt
  by_cases hfeed : head.length ≤ j ∧ j < head.length + k
  · exact at?_feed hp hfeed.1 hfeed.2
  · obtain ⟨j, rfl⟩ := exists_eq_below hfeed
    have hij : i ≤ j := Nat.le_of_not_lt fun hlt ↦
      Nat.not_le_of_lt (below_lt_below.mpr hlt) hj
    refine at?_below_eq_none hp hline ?_
    by_cases hjlt : j < (head ++ tail).length
    · exact h j hij hjlt
    · rw [length_insert, below] at hlt
      rw [List.length_append] at hjlt hlt
      split at hlt <;> omega

include hend in
theorem from?_below_eq_some (h : p.from? (head ++ tail) i = some o)
    (hwhole : o.start < head.length →
      ¬ Broken ((head ++ tail).take o.start).getLast? ((head ++ tail).drop o.start) tail.length) :
    p.from? (head ++ (lineFeeds k ++ tail)) (below head.length k i) =
      some (moved head.length k o) := by
  obtain ⟨j, hij, hj, hat, hnone⟩ := from?_eq_some_iff.mp h
  obtain ⟨rfl, -, -⟩ := at?_eq_some hend hat
  refine from?_eq_some_iff.mpr ⟨below head.length k o.start, ?_, ?_, ?_, fun l hl hlt ↦ ?_⟩
  · rcases Nat.lt_or_eq_of_le hij with hlt | heq
    · exact (below_lt_below.mpr hlt).le
    · rw [heq]
  · rw [length_insert, below]
    split <;> omega
  · by_cases hstart : o.start < head.length
    · rw [below, if_pos hstart]
      exact at?_eq_some_of_lt hp hline hend hstart hat (hwhole hstart)
    · rw [below, if_neg hstart, at?_below_of_le hp hline (Nat.le_of_not_lt hstart), hat,
        Option.map_some]
  · by_cases hfeed : head.length ≤ l ∧ l < head.length + k
    · exact at?_feed hp hfeed.1 hfeed.2
    · obtain ⟨l, rfl⟩ := exists_eq_below hfeed
      refine at?_below_eq_none hp hline (hnone l ?_ (below_lt_below.mp hlt))
      exact Nat.le_of_not_lt fun hlt ↦ Nat.not_le_of_lt (below_lt_below.mpr hlt) hl

end Occurrences

/-- **The occurrences keep their values and move with the text**, if none that starts before the
line feeds is broken. -/
theorem occurrences_insert (hp : p.Spreads Broken) (hend : p.LeavesEnd)
    (hshort : ∀ {before t v rest}, p before t = some (v, rest) → rest.length < t.length)
    (hline : head = [] ∨ head.getLast? = some (CodePoint.ofChar '\n'))
    (hwhole : ∀ o ∈ p.occurrences (head ++ tail), o.start < head.length →
      ¬ Broken ((head ++ tail).take o.start).getLast? ((head ++ tail).drop o.start) tail.length) :
    p.occurrences (head ++ (lineFeeds k ++ tail)) =
      (p.occurrences (head ++ tail)).map (moved head.length k) := by
  let whole (i : Nat) : List (Occurrence α) :=
    p.occurrencesFrom 0 i ((head ++ tail).take i).getLast? ((head ++ tail).drop i)
  let spread (i : Nat) : List (Occurrence α) :=
    p.occurrencesFrom 0 i ((head ++ (lineFeeds k ++ tail)).take i).getLast?
      ((head ++ (lineFeeds k ++ tail)).drop i)
  -- By induction on what is left of the text, from the first occurrence to what follows it.
  have hfrom (i : Nat) (hwhole : ∀ o ∈ whole i, o.start < head.length →
      ¬ Broken ((head ++ tail).take o.start).getLast? ((head ++ tail).drop o.start) tail.length) :
      spread (below head.length k i) = (whole i).map (moved head.length k) := by
    induction hn : (head ++ tail).length - i using Nat.strongRecOn generalizing i with
    | ind n ih =>
      simp only [whole, spread] at hwhole ih ⊢
      rw [occurrencesFrom_drop hend hshort] at hwhole ⊢
      rw [occurrencesFrom_drop hend hshort (head ++ tail)]
      cases hfirst : p.from? (head ++ tail) i with
      | none => rw [from?_below_eq_none hp hline hfirst, List.map_nil]
      | some o =>
        rw [hfirst] at hwhole
        obtain ⟨hunbroken, hrest⟩ := List.forall_mem_cons.mp hwhole
        obtain ⟨hi, hlt, hle, hstop, hat⟩ := from?_eq_some hend hfirst
        obtain ⟨-, -, hfound⟩ := at?_eq_some hend hat
        have hshorter := hshort hfound
        rw [List.length_drop, List.length_drop] at hshorter
        rw [from?_below_eq_some hp hend hline hfirst hunbroken, List.map_cons]
        dsimp only
        rw [moved_stop hle, ih ((head ++ tail).length - o.stop) (by omega) o.stop hrest rfl]
  have hspread :
      p.occurrences (head ++ (lineFeeds k ++ tail)) = spread (below head.length k 0) := by
    rcases Nat.eq_zero_or_pos head.length with hempty | hpos
    · obtain rfl := List.length_eq_zero_iff.mp hempty
      have hlength : (lineFeeds k).length = k := List.length_replicate
      have hdeclines (n : Nat) : p.Declines (lineFeeds n) tail := by
        induction n with
        | zero => trivial
        | succ n ih => exact ⟨fun before ↦ hp.feed before _, ih⟩
      simp only [spread, List.length_nil, below_of_le k (Nat.le_refl 0), List.nil_append,
        Nat.zero_add, List.take_left' hlength, List.drop_left' hlength]
      rw [occurrences, occurrencesFrom_of_declines (hdeclines k), hlength, Nat.zero_add,
        Option.or_none]
    · simp only [spread, below_of_lt k hpos]
      rfl
  rw [hspread]
  exact hfrom 0 hwhole

end Spreads

end Pattern

end RouteCatalog
