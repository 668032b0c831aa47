import Mathlib.Data.Nat.Basic
import RouteCatalog.Proofs.Fallible
import RouteCatalog.Proofs.Text.Surrogate

/-!
# Decoding

With replacement every sequence of bytes has a text. It holds no surrogate, and it is no longer than
the sequence. Nor does a text hold one that is decoded without replacement.

There is no surrogate because the range that a first byte leaves to the second excludes them, as it
excludes forms that are too long. The numbers that an unfinished character can still become are an
interval, and every further byte narrows it (`Unfinished.Misses`).
-/

namespace RouteCatalog

namespace Utf8

namespace Unfinished

/-- No number that the character can still become is that of a surrogate. -/
def Misses (p : Unfinished) : Prop :=
  ∀ n, (p.bits * 0x40 + (p.low - 0x80)) * Nat.pow 0x40 p.owed ≤ n →
    n < (p.bits * 0x40 + (p.high - 0x80) + 1) * Nat.pow 0x40 p.owed → n < 0xD800 ∨ 0xDFFF < n

variable {p : Unfinished} {n : Nat}

/-- The number after the last byte is one that the character could become. -/
theorem Misses.last (hp : p.Misses) (howed : p.owed = 0) (hn : p.low ≤ n ∧ n ≤ p.high) :
    p.bits * 0x40 + (n - 0x80) < 0xD800 ∨ 0xDFFF < p.bits * 0x40 + (n - 0x80) := by
  rw [Misses, howed] at hp
  refine hp _ ?_ ?_
  · change _ * 1 ≤ _
    omega
  · change _ < _ * 1
    omega

/-- A further byte leaves fewer numbers. -/
theorem Misses.next (hp : p.Misses) (howed : p.owed ≠ 0) (hn : p.low ≤ n ∧ n ≤ p.high) :
    Misses { p with
      bits := p.bits * 0x40 + (n - 0x80), owed := p.owed - 1, low := 0x80, high := 0xBF } := by
  intro m hlow hhigh
  dsimp only at hlow hhigh
  obtain ⟨k, hk⟩ := Nat.exists_eq_succ_of_ne_zero howed
  have hpow : Nat.pow 0x40 p.owed = 0x40 * Nat.pow 0x40 (p.owed - 1) := by
    rw [hk]
    exact Nat.mul_comm _ _
  rw [Misses, hpow] at hp
  refine hp m (le_trans ?_ hlow) (hhigh.trans_le ?_)
  · rw [← Nat.mul_assoc]
    exact Nat.mul_le_mul_right _ (by omega)
  · rw [← Nat.mul_assoc]
    exact Nat.mul_le_mul_right _ (by omega)

end Unfinished

theorem misses_of_first {position b bits owed low high : Nat}
    (h : first b = .start bits owed low high) :
    Unfinished.Misses ⟨position, b, bits, owed, low, high⟩ := by
  have hpow : Nat.pow 0x40 0 = 1 ∧ Nat.pow 0x40 1 = 0x40 ∧ Nat.pow 0x40 2 = 0x1000 := by decide
  intro n
  unfold first at h
  split_ifs at h <;> simp only [First.start.injEq] at h <;>
    obtain ⟨rfl, rfl, rfl, rfl⟩ := h <;> simp only [hpow] <;> omega

/-! ## The items of bytes -/

/-- A first byte gives a character, a fault, or the start of a longer character. -/
theorem startAt_spec (position b : Nat) :
    (∃ c, startAt position b = ([.ok c], none) ∧ c.isSurrogate = false) ∨
      (∃ fault, startAt position b = ([.error fault], none)) ∨
        ∃ p, startAt position b = ([], some p) ∧ p.Misses := by
  rw [startAt]
  cases hfirst : first b with
  | whole =>
    refine .inl ⟨.ofNat b, rfl, CodePoint.isSurrogate_ofNat (.inl ?_)⟩
    unfold first at hfirst
    split_ifs at hfirst with hb
    exact hb.trans (by decide)
  | bad => exact .inr (.inl ⟨_, rfl⟩)
  | start bits owed low high => exact .inr (.inr ⟨_, rfl, misses_of_first hfirst⟩)

/-- No surrogate is among the items, and there are no more of them than `n`. -/
def Fits (n : Nat) (items : List Item) : Prop :=
  (∀ c, .ok c ∈ items → c.isSurrogate = false) ∧ items.length ≤ n

theorem Fits.cons {n : Nat} {item : Item} {items : List Item}
    (hitem : ∀ c, item = .ok c → c.isSurrogate = false) (h : Fits n items) :
    Fits (n + 1) (item :: items) := by
  refine ⟨fun c hc ↦ ?_, Nat.succ_le_succ h.2⟩
  rcases List.mem_cons.mp hc with hc | hc
  · exact hitem c hc.symm
  · exact h.1 c hc

theorem Fits.mono {n m : Nat} {items : List Item} (h : Fits n items) (hnm : n ≤ m) :
    Fits m items := ⟨h.1, h.2.trans hnm⟩

theorem fits_itemsFrom (bytes : Bytes) :
    (∀ position, Fits bytes.length (itemsFrom position none bytes)) ∧
      ∀ position p, p.Misses → Fits (bytes.length + 1) (itemsFrom position (some p) bytes) := by
  -- The two parts need each other: a byte that breaks a character off starts another one.
  induction bytes with
  | nil =>
    have hnil : Fits 0 [] := ⟨fun c hc ↦ absurd hc List.not_mem_nil, Nat.le_refl 0⟩
    exact ⟨fun _ ↦ hnil, fun _ _ _ ↦ hnil.cons fun c hc ↦ by cases hc⟩
  | cons b rest ih =>
    obtain ⟨hfirst, hinside⟩ := ih
    have hstart (position : Nat) :
        Fits (rest.length + 1) (itemsFrom position none (b :: rest)) := by
      rw [itemsFrom]
      rcases startAt_spec position b.toNat with ⟨c, h, hc⟩ | ⟨fault, h⟩ | ⟨p, h, hp⟩
      · rw [h]
        exact (hfirst (position + 1)).cons fun d hd ↦ Except.ok.inj hd ▸ hc
      · rw [h]
        exact (hfirst (position + 1)).cons fun d hd ↦ by cases hd
      · rw [h]
        exact hinside (position + 1) p hp
    refine ⟨hstart, fun position p hp ↦ ?_⟩
    rw [itemsFrom]
    dsimp only
    split
    · next hrange =>
      split
      · next howed =>
        refine ((hfirst (position + 1)).cons fun c hc ↦ ?_).mono (Nat.le_succ _)
        rw [← Except.ok.inj hc]
        exact CodePoint.isSurrogate_ofNat (hp.last howed hrange)
      · next howed =>
        exact (hinside (position + 1) _ (hp.next howed hrange)).mono (Nat.le_succ _)
    -- One item for what broke off. The byte is looked at afresh, and it pays for the next one.
    · exact (hstart position).cons fun c hc ↦ by cases hc

theorem surrogateFree_decodeReplacing (bytes : Bytes) :
    (decodeReplacing bytes).SurrogateFree := by
  intro c hc
  obtain ⟨item, hitem, rfl⟩ := List.mem_map.mp hc
  cases item with
  | ok c => exact ((fits_itemsFrom bytes).1 0).1 c hitem
  | error fault => exact CodePoint.isSurrogate_ofNat (.inr (by decide))

theorem surrogateFree_of_decode {bytes : Bytes} {t : Text} (h : decode bytes = .ok t) :
    t.SurrogateFree := by
  intro c hc
  obtain ⟨item, hitem, rfl⟩ := exists_of_mem_mapM h hc
  exact ((fits_itemsFrom bytes).1 0).1 c hitem

theorem length_decodeReplacing_le (bytes : Bytes) :
    (decodeReplacing bytes).length ≤ bytes.length := by
  rw [decodeReplacing, List.length_map]
  exact ((fits_itemsFrom bytes).1 0).2

end Utf8

/-! ## Line ends -/

namespace Text

theorem unifyNewlines_cons (c : CodePoint) (t : Text) :
    ∃ d rest, unifyNewlines (c :: t) = d :: unifyNewlines rest ∧ rest <:+ t ∧
      (d = c ∨ d = '\n') := by
  cases t with
  | nil =>
    refine ⟨_, [], rfl, List.suffix_rfl, ?_⟩
    split
    · exact .inr rfl
    · exact .inl rfl
  | cons next t =>
    rw [unifyNewlines]
    split
    · split
      · exact ⟨_, t, rfl, List.suffix_cons next t, .inr rfl⟩
      · exact ⟨_, next :: t, rfl, List.suffix_rfl, .inr rfl⟩
    · exact ⟨c, next :: t, rfl, List.suffix_rfl, .inl rfl⟩

theorem surrogateFree_unifyNewlines {t : Text} (h : t.SurrogateFree) :
    t.unifyNewlines.SurrogateFree := by
  induction hlength : t.length using Nat.strong_induction_on generalizing t with
  | _ n ih =>
    cases t with
    | nil => exact h
    | cons c t =>
      obtain ⟨d, rest, hstep, hrest, hd⟩ := unifyNewlines_cons c t
      have hlt : rest.length < n := hlength ▸ Nat.lt_succ_of_le hrest.length_le
      have htail := ih rest.length hlt (h.of_subset fun e he ↦
        List.mem_cons_of_mem c (hrest.subset he)) rfl
      rw [hstep]
      intro e he
      rcases List.mem_cons.mp he with rfl | he
      · rcases hd with rfl | rfl
        · exact h _ List.mem_cons_self
        · decide
      · exact htail e he

theorem length_unifyNewlines_le (t : Text) : t.unifyNewlines.length ≤ t.length := by
  fun_induction unifyNewlines t <;> grind

end Text

end RouteCatalog
