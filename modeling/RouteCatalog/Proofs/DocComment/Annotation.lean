import RouteCatalog.Proofs.DocComment.Tag

/-!
# Annotations

Each annotation is a header, which starts with an at sign, and what belongs to it: a body, or the
type and the name of a parameter (`requestBodyTag_eq_some_iff`, `responseTag_eq_some_iff`,
`parameterTag_eq_some_iff`). No part of it holds another at sign, unless the type of a parameter
does. So an annotation that starts before an at sign ends before it, and is the same whatever
follows (`EndsBefore`), and what is found in a text up to an at sign does not depend on the rest of
the text (`exists_values_append`).
-/

namespace RouteCatalog

namespace Pattern

variable {α : Type} {p : Pattern α}

/-! ## Values -/

/-- The values of the occurrences in a text, in their order. -/
def values (p : Pattern α) (t : Text) : List α := (p.occurrences t).map Occurrence.value

section Anywhere

variable (hp : ∀ before before' t, p before t = p before' t)
include hp

theorem values_of_found {x y : Text} {v : α} (hx : x ≠ []) (h : p none (x ++ y) = some (v, y)) :
    p.values (x ++ y) = v :: p.values y := by
  rw [values, occurrences, occurrencesFrom_of_found hx h, List.map_cons, value_occurrencesFrom hp]
  rfl

theorem values_of_declines {x y : Text} (h : p.Declines x y) :
    p.values (x ++ y) = p.values y := by
  rw [values, occurrences, occurrencesFrom_of_declines h, value_occurrencesFrom hp]
  rfl

theorem first?_eq_values (t : Text) : (p.first? none t).map Prod.fst = (p.values t).head? := by
  induction t with
  | nil => rfl
  | cons c t ih =>
    rw [first?, values, occurrences, occurrencesFrom, first?_congr hp _ none]
    cases p none (c :: t) with
    | some found => rfl
    | none =>
      dsimp only
      rw [ih, value_occurrencesFrom hp]
      rfl

end Anywhere

/-! ## What ends before a mark -/

/-- What is recognised at the front of a text that ends in a mark ends before it, and is the same
whatever follows the mark. -/
def EndsBefore (mark : CodePoint) (p : Pattern α) (u : Text) : Prop :=
  ∀ w w' v rest, p none (u ++ mark :: w) = some (v, rest) →
    ∃ r, r <:+ u ∧ r ≠ u ∧ rest = r ++ mark :: w ∧
      p none (u ++ mark :: w') = some (v, r ++ mark :: w')

/-- **What is found before a mark does not depend on what follows it.** -/
theorem exists_values_append (hp : ∀ before before' t, p before t = p before' t)
    {mark : CodePoint} {x : Text} (hx : ∀ u, u <:+ x → u ≠ [] → p.EndsBefore mark u) (w w' : Text) :
    ∃ found, p.values (x ++ mark :: w) = found ++ p.values (mark :: w) ∧
      p.values (x ++ mark :: w') = found ++ p.values (mark :: w') := by
  induction hn : x.length using Nat.strong_induction_on generalizing x with
  | _ n ih =>
    subst hn
    cases x with
    | nil => exact ⟨[], rfl, rfl⟩
    | cons c x =>
      have hlocal := hx (c :: x) List.suffix_rfl (List.cons_ne_nil c x)
      cases hfound : p none (c :: x ++ mark :: w) with
      | none =>
        have hnone : p none (c :: x ++ mark :: w') = none := by
          by_contra hsome
          obtain ⟨⟨v, rest⟩, hsome⟩ := Option.ne_none_iff_exists'.mp hsome
          obtain ⟨r, -, -, -, hsame⟩ := hlocal w' w v rest hsome
          rw [hfound] at hsame
          cases hsame
        have hpass {w : Text} (h : p none (c :: x ++ mark :: w) = none) :
            p.values (c :: x ++ mark :: w) = p.values (x ++ mark :: w) :=
          values_of_declines hp (x := [c]) ⟨fun before ↦ (hp before none _).trans h, trivial⟩
        rw [hpass hfound, hpass hnone]
        exact ih x.length (Nat.lt_succ_self _)
          (fun u hu ↦ hx u (hu.trans (List.suffix_cons c x))) rfl
      | some found =>
        obtain ⟨v, rest⟩ := found
        obtain ⟨r, ⟨front, hfront⟩, hne, rfl, hsame⟩ := hlocal w w' v rest hfound
        have hnonempty : front ≠ [] := by
          rintro rfl
          exact hne hfront
        have hlength := congrArg List.length hfront
        rw [List.length_append] at hlength
        have hpositive := List.length_pos_iff.mpr hnonempty
        obtain ⟨later, h, h'⟩ := ih r.length (by omega)
          (fun u hu ↦ hx u (hu.trans ⟨front, hfront⟩)) rfl
        refine ⟨v :: later, ?_, ?_⟩
        · rw [← hfront, List.append_assoc] at hfound ⊢
          rw [values_of_found hp hnonempty hfound, h]
          rfl
        · rw [← hfront, List.append_assoc] at hsame ⊢
          rw [values_of_found hp hnonempty hsame, h']
          rfl

/-- A part that starts with a mark and holds no other one lies before the next mark. -/
theorem exists_of_append_eq {mark : CodePoint} {u s w rest : Text} (hu : u ≠ [])
    (hs : mark ∉ s) (h : u ++ mark :: w = mark :: s ++ rest) :
    ∃ r, u = mark :: s ++ r ∧ rest = r ++ mark :: w := by
  rcases List.append_eq_append_iff.mp h with ⟨inner, hlong, hrest⟩ | ⟨r, hu, hrest⟩
  · cases inner with
    | nil => exact ⟨[], by rw [List.append_nil, hlong, List.append_nil], hrest.symm⟩
    | cons d inner =>
      -- A longer part would hold the mark that follows.
      obtain ⟨rfl, -⟩ := List.cons.inj hrest
      obtain ⟨c, u, rfl⟩ := List.exists_cons_of_ne_nil hu
      obtain ⟨-, rfl⟩ := List.cons.inj hlong
      exact absurd (List.mem_append_right u List.mem_cons_self) hs
  · exact ⟨r, hu, hrest⟩

/-- A pattern of which what is recognised starts with the mark and holds no other one, and that
declines or not by what follows at once, ends before the next mark. -/
theorem endsBefore_of_iff {mark : CodePoint} {u : Text} (part follow : α → Text → Prop)
    (hspec : ∀ t v rest, p none t = some (v, rest) ↔ ∃ m, t = m ++ rest ∧ part v m ∧ follow v rest)
    (hpart : ∀ v m rest w, u ++ mark :: w = m ++ rest → part v m → ∃ s, m = mark :: s ∧ mark ∉ s)
    (hfollow : ∀ v r w w', follow v (r ++ mark :: w) → follow v (r ++ mark :: w')) (hu : u ≠ []) :
    p.EndsBefore mark u := by
  intro w w' v rest h
  obtain ⟨m, hm, hpartly, hrest⟩ := (hspec _ _ _).mp h
  obtain ⟨s, rfl, hs⟩ := hpart v m rest w hm hpartly
  obtain ⟨r, rfl, rfl⟩ := exists_of_append_eq hu hs hm
  have hshorter : r ≠ mark :: s ++ r := by
    intro heq
    have hlength := congrArg List.length heq
    rw [List.length_append, List.length_cons] at hlength
    omega
  refine ⟨r, List.suffix_append _ r, hshorter, rfl, (hspec _ _ _).mpr ⟨_, ?_, hpartly,
    hfollow _ _ _ _ hrest⟩⟩
  rw [List.append_assoc]

end Pattern

namespace DocComment

variable {t b rest : Text}

/-! ## Blanks -/

/-- One or more blanks. -/
def Blanks (t : Text) : Prop := t ≠ [] ∧ ∀ c ∈ t, c.isBlank = true

/-- The text does not start with a blank. -/
def StartsUnblank (t : Text) : Prop := ∀ c ∈ t.head?, c.isBlank = false

instance (t : Text) : Decidable (Blanks t) := inferInstanceAs (Decidable (_ ∧ _))

instance (t : Text) : Decidable (StartsUnblank t) :=
  inferInstanceAs (Decidable (∀ c ∈ t.head?, _))

theorem trimLeft_append {blanks : Text} (hblanks : ∀ c ∈ blanks, c.isBlank = true)
    (ht : StartsUnblank t) : (blanks ++ t).trimLeft = t := by
  rw [Text.trimLeft, List.dropWhile_append_of_pos hblanks]
  cases t with
  | nil => rfl
  | cons c t => exact List.dropWhile_cons_of_neg (by rw [ht c rfl]; decide)

theorem startsUnblank_trimLeft (t : Text) : StartsUnblank t.trimLeft := by
  intro c hc
  have hhead := List.head?_dropWhile_not CodePoint.isBlank t
  rw [Text.trimLeft] at hc
  rw [hc] at hhead
  exact hhead

theorem dropBlanks?_eq_some_iff :
    Text.dropBlanks? t = some rest ↔ ∃ blanks, Blanks blanks ∧ t = blanks ++ rest ∧
      StartsUnblank rest := by
  constructor
  · intro h
    cases t with
    | nil => cases h
    | cons c t =>
      rw [Text.dropBlanks?] at h
      split at h
      · next hc =>
        cases h
        refine ⟨c :: t.takeWhile CodePoint.isBlank, ⟨List.cons_ne_nil _ _, ?_⟩, ?_,
          startsUnblank_trimLeft t⟩
        · exact List.forall_mem_cons.mpr ⟨hc, fun d hd ↦ List.mem_takeWhile_imp hd⟩
        · exact congrArg (c :: ·) List.takeWhile_append_dropWhile.symm
      · cases h
  · rintro ⟨blanks, ⟨hne, hblanks⟩, rfl, hrest⟩
    obtain ⟨c, blanks, rfl⟩ := List.exists_cons_of_ne_nil hne
    obtain ⟨hc, hblanks⟩ := List.forall_mem_cons.mp hblanks
    rw [List.cons_append, Text.dropBlanks?, if_pos hc]
    exact congrArg some (trimLeft_append hblanks hrest)

/-! ## Bodies -/

/-- What may follow a body: nothing, an at sign, or the end of a comment. -/
def EndsBody (rest : Text) : Prop :=
  rest = [] ∨ rest.head? = some (CodePoint.ofChar '@') ∨ Text.ofString "*/" <+: rest

/-- A text that may stand as a body: neither an at sign nor the end of a comment is in it. -/
structure IsBody (b : Text) : Prop where
  /-- It does not start with a blank, which would belong to the header. -/
  start : StartsUnblank b
  atFree : CodePoint.ofChar '@' ∉ b
  endFree : ¬ Text.ofString "*/" <:+: b

theorem body_append (hat : CodePoint.ofChar '@' ∉ b) (hend : ¬ Text.ofString "*/" <:+: b)
    (hrest : EndsBody rest) : body (b ++ rest) = b := by
  induction b with
  | nil =>
    rcases hrest with rfl | hhead | ⟨after, rfl⟩
    · rfl
    · obtain ⟨after, rfl⟩ := List.head?_eq_some_iff.mp hhead
      rfl
    · rfl
  | cons c b ih =>
    rw [List.mem_cons, not_or] at hat
    have hlater : ¬ Text.ofString "*/" <:+: b :=
      fun h ↦ hend (h.trans (List.suffix_cons c b).isInfix)
    have hnext : ¬ (c = '*' ∧ (b ++ rest).head? = some (CodePoint.ofChar '/')) := by
      rintro ⟨rfl, hhead⟩
      cases b with
      | nil =>
        rcases hrest with rfl | hhead' | ⟨after, rfl⟩
        · cases hhead
        · rw [List.nil_append, hhead'] at hhead
          exact absurd hhead (by decide)
        · cases hhead
      | cons d b =>
        obtain rfl : d = CodePoint.ofChar '/' := Option.some.inj hhead
        exact hend ⟨[], b, rfl⟩
    have hgoesOn : ¬ (decide (c = '@') || decide (c = '*') &&
        decide ((b ++ rest).head? = some (CodePoint.ofChar '/'))) = true := by
      simp only [Bool.or_eq_true, Bool.and_eq_true, decide_eq_true_eq, not_or]
      exact ⟨fun h ↦ hat.1 h.symm, hnext⟩
    rw [List.cons_append, body, if_neg hgoesOn, ih hat.2 hlater]

theorem append_drop_body (t : Text) : body t ++ t.drop (body t).length = t := by
  rw [List.prefix_iff_eq_take.mp (body_isPrefix t), List.length_take,
    Nat.min_eq_left (body_isPrefix t).length_le, List.take_append_drop]

/-- The body that is read at the front of a text may stand as one, and what follows ends it. -/
theorem body_spec (t : Text) :
    CodePoint.ofChar '@' ∉ body t ∧ ¬ Text.ofString "*/" <:+: body t ∧
      EndsBody (t.drop (body t).length) := by
  induction t with
  | nil => exact ⟨List.not_mem_nil, by decide, .inl rfl⟩
  | cons c t ih =>
    obtain ⟨hat, hend, hrest⟩ := ih
    rw [body]
    split
    · next hends =>
      refine ⟨List.not_mem_nil, by decide, .inr ?_⟩
      simp only [Bool.or_eq_true, Bool.and_eq_true, decide_eq_true_eq] at hends
      rcases hends with rfl | ⟨rfl, hhead⟩
      · exact .inl rfl
      · obtain ⟨after, rfl⟩ := List.head?_eq_some_iff.mp hhead
        exact .inr ⟨after, rfl⟩
    · next hgoesOn =>
      simp only [Bool.or_eq_true, Bool.and_eq_true, decide_eq_true_eq, not_or] at hgoesOn
      refine ⟨?_, ?_, hrest⟩
      · rw [List.mem_cons, not_or]
        exact ⟨Ne.symm hgoesOn.1, hat⟩
      · intro hinfix
        rcases List.infix_cons_iff.mp hinfix with ⟨after, hprefix⟩ | hlater
        · obtain ⟨rfl, hbody⟩ := List.cons.inj hprefix
          refine hgoesOn.2 ⟨rfl, ?_⟩
          obtain ⟨tail, htail⟩ := body_isPrefix t
          rw [← htail, ← hbody]
          rfl
        · exact hend hlater

/-! ## Request bodies -/

/-- The header of a request body. -/
def IsRequestHeader (header : Text) : Prop :=
  ∃ blanks, Blanks blanks ∧ header = "@requestBody" ++ blanks

theorem startsUnblank_append (hb : StartsUnblank b) (hrest : EndsBody rest) :
    StartsUnblank (b ++ rest) := by
  cases b with
  | cons c b => exact hb
  | nil =>
    intro c hc
    rcases hrest with rfl | hhead | ⟨after, rfl⟩
    · cases hc
    · rw [List.nil_append, hhead] at hc
      cases hc
      decide
    · cases hc
      decide

theorem startsUnblank_of_append (h : StartsUnblank (b ++ rest)) : StartsUnblank b := by
  cases b with
  | nil => exact fun c hc ↦ by cases hc
  | cons c b => exact h

theorem body_eq_iff : StartsUnblank t ∧ b = body t ∧ rest = t.drop (body t).length ↔
    t = b ++ rest ∧ IsBody b ∧ EndsBody rest := by
  constructor
  · rintro ⟨ht, rfl, rfl⟩
    obtain ⟨hat, hend, hrest⟩ := body_spec t
    have hsplit := append_drop_body t
    exact ⟨hsplit.symm, ⟨startsUnblank_of_append (hsplit.symm ▸ ht), hat, hend⟩, hrest⟩
  · rintro ⟨rfl, hb, hrest⟩
    have hbody := body_append hb.atFree hb.endFree hrest
    exact ⟨startsUnblank_append hb.start hrest, hbody.symm, by rw [hbody, List.drop_left]⟩

/-- **The annotation of a request body** is its header and a body. -/
theorem requestBodyTag_eq_some_iff {before : Option CodePoint} :
    requestBodyTag before t = some (b, rest) ↔
      ∃ header, IsRequestHeader header ∧ t = header ++ (b ++ rest) ∧ IsBody b ∧ EndsBody rest := by
  simp only [requestBodyTag, Option.bind_eq_bind, Option.bind_eq_some_iff, Option.pure_def,
    Option.some.injEq, Prod.mk.injEq, Text.dropLiteral?_eq_some_iff, dropBlanks?_eq_some_iff]
  constructor
  · rintro ⟨named, rfl, after, ⟨blanks, hblanks, rfl, hafter⟩, hb, hrest⟩
    obtain ⟨hsplit, hbody⟩ := body_eq_iff.mp ⟨hafter, hb.symm, hrest.symm⟩
    exact ⟨_, ⟨blanks, hblanks, rfl⟩, by rw [hsplit, List.append_assoc], hbody⟩
  · rintro ⟨header, ⟨blanks, hblanks, rfl⟩, rfl, hbody⟩
    obtain ⟨hstart, hb, hrest⟩ := body_eq_iff.mpr ⟨rfl, hbody⟩
    exact ⟨_, List.append_assoc _ _ _, _, ⟨blanks, hblanks, rfl, hstart⟩, hb.symm, hrest.symm⟩

/-! ## Responses -/

/-- The header of a response with a status: three decimal digits of any script. -/
def IsResponseHeader (status : Nat) (header : Text) : Prop :=
  ∃ blanks blanks' a b c x y z, Blanks blanks ∧ Blanks blanks' ∧
    header = "@responseExample" ++ (blanks ++ (a :: b :: c :: blanks')) ∧
    a.digit? = some x ∧ b.digit? = some y ∧ c.digit? = some z ∧
    status = 100 * x + 10 * y + z

theorem exists_of_inRanges {c : CodePoint} {ranges : List (Nat × Nat)}
    (h : c.inRanges ranges = true) : ∃ r ∈ ranges, r.1 ≤ c.toNat ∧ c.toNat ≤ r.2 := by
  induction ranges with
  | nil => cases h
  | cons r ranges ih =>
    rw [CodePoint.inRanges] at h
    split at h
    · cases h
    · next hlow =>
      split at h
      · next hhigh => exact ⟨r, List.mem_cons_self, Nat.not_lt.mp hlow, hhigh⟩
      · obtain ⟨r', hr', hin⟩ := ih h
        exact ⟨r', List.mem_cons_of_mem r hr', hin⟩

/-- What holds of each character in the table of blanks holds of every blank. -/
theorem of_isBlank {p : CodePoint → Bool} (h : ∀ r ∈ CodePoint.blankRanges,
    ∀ n ∈ List.range' r.1 (r.2 + 1 - r.1), p (CodePoint.ofNat n) = true) {c : CodePoint}
    (hc : c.isBlank = true) : p c = true := by
  obtain ⟨r, hr, hlow, hhigh⟩ := exists_of_inRanges hc
  rw [← CodePoint.ofNat_toNat c]
  exact h r hr c.toNat (List.mem_range'_1.mpr ⟨hlow, by omega⟩)

theorem isBlank_of_digit? {c : CodePoint} {n : Nat} (h : c.digit? = some n) :
    c.isBlank = false := by
  by_contra hblank
  have hnone := of_isBlank (p := fun c ↦ c.digit?.isNone) (by decide) (Bool.not_eq_false _ ▸ hblank)
  rw [h] at hnone
  cases hnone

theorem isBlank_of_isNameChar {c : CodePoint} (h : isNameChar c = true) : c.isBlank = false := by
  by_contra hblank
  have hnot := of_isBlank (p := fun c ↦ !isNameChar c) (by decide +kernel)
    (Bool.not_eq_false _ ▸ hblank)
  rw [h] at hnot
  cases hnot

theorem status?_eq_some_iff {status : Nat} : status? t = some (status, rest) ↔
    ∃ a b c x y z, t = a :: b :: c :: rest ∧ a.digit? = some x ∧ b.digit? = some y ∧
      c.digit? = some z ∧ status = 100 * x + 10 * y + z := by
  constructor
  · intro h
    unfold status? at h
    split at h
    · next a b c t =>
      simp only [Option.bind_eq_bind, Option.bind_eq_some_iff, Option.pure_def,
        Option.some.injEq, Prod.mk.injEq] at h
      obtain ⟨x, hx, y, hy, z, hz, rfl, rfl⟩ := h
      exact ⟨a, b, c, x, y, z, rfl, hx, hy, hz, rfl⟩
    · cases h
  · rintro ⟨a, b, c, x, y, z, rfl, hx, hy, hz, rfl⟩
    simp only [status?, hx, hy, hz, Option.bind_eq_bind, Option.bind_some, Option.pure_def]

/-- **The annotation of a response** is its header and a body. -/
theorem responseTag_eq_some_iff {before : Option CodePoint} {status : Nat} :
    responseTag before t = some ((status, b), rest) ↔
      ∃ header, IsResponseHeader status header ∧ t = header ++ (b ++ rest) ∧ IsBody b ∧
        EndsBody rest := by
  simp only [responseTag, Option.bind_eq_bind, Option.bind_eq_some_iff, Option.pure_def,
    Option.some.injEq, Prod.exists, Prod.mk.injEq, Text.dropLiteral?_eq_some_iff,
    dropBlanks?_eq_some_iff, status?_eq_some_iff]
  constructor
  · rintro ⟨named, rfl, digits, ⟨blanks, hblanks, rfl, -⟩, status, after,
      ⟨x, y, z, k, l, m, rfl, hx, hy, hz, rfl⟩, started, ⟨blanks', hblanks', rfl, hstarted⟩,
      ⟨rfl, hb⟩, hrest⟩
    obtain ⟨hsplit, hbody⟩ := body_eq_iff.mp ⟨hstarted, hb.symm, hrest.symm⟩
    refine ⟨_, ⟨blanks, blanks', x, y, z, k, l, m, hblanks, hblanks', rfl, hx, hy, hz, rfl⟩, ?_,
      hbody⟩
    rw [hsplit]
    simp only [List.append_assoc, List.cons_append]
  · rintro ⟨header, ⟨blanks, blanks', x, y, z, k, l, m, hblanks, hblanks', rfl, hx, hy, hz, rfl⟩,
      rfl, hbody⟩
    obtain ⟨hstart, hb, hrest⟩ := body_eq_iff.mpr ⟨rfl, hbody⟩
    have hdigits : StartsUnblank (x :: y :: z :: (blanks' ++ (b ++ rest))) := by
      rintro c ⟨⟩
      exact isBlank_of_digit? hx
    refine ⟨_, by simp only [List.append_assoc, List.cons_append], _,
      ⟨blanks, hblanks, rfl, hdigits⟩, _, _, ⟨x, y, z, k, l, m, rfl, hx, hy, hz, rfl⟩, _,
      ⟨blanks', hblanks', rfl, hstart⟩, ⟨rfl, hb.symm⟩, hrest.symm⟩

/-! ## Parameters -/

/-- The annotation of a parameter, up to the end of its name. -/
def IsParameter (v : Text × Text) (part : Text) : Prop :=
  ∃ blanks blanks', Blanks blanks ∧ Blanks blanks' ∧
    part = "@param" ++ (blanks ++ ("\x7b" ++ (v.1 ++ ("\x7d" ++ (blanks' ++ v.2))))) ∧
    v.1 ≠ [] ∧ CodePoint.ofChar '}' ∉ v.1 ∧ ∀ c ∈ v.2, isNameChar c = true

/-- What may follow the annotation of a parameter: its name ends, and no blank comes before it. -/
def EndsParameter (v : Text × Text) (rest : Text) : Prop :=
  StartsUnblank (v.2 ++ rest) ∧ ∀ c ∈ rest.head?, isNameChar c = false

theorem span_append {p : CodePoint → Bool} (hb : ∀ c ∈ b, p c = true)
    (ht : ∀ c ∈ t.head?, p c = false) :
    (b ++ t).takeWhile p = b ∧ (b ++ t).dropWhile p = t := by
  rw [List.takeWhile_append_of_pos hb, List.dropWhile_append_of_pos hb]
  cases t with
  | nil => exact ⟨List.append_nil b, rfl⟩
  | cons c t =>
    have hc : ¬ p c = true := by
      rw [ht c rfl]
      decide
    rw [List.takeWhile_cons_of_neg hc, List.dropWhile_cons_of_neg hc, List.append_nil]
    exact ⟨rfl, rfl⟩

theorem exists_of_parameterTag {before : Option CodePoint} {v : Text × Text}
    (h : parameterTag before t = some (v, rest)) :
    ∃ part, t = part ++ rest ∧ IsParameter v part ∧ EndsParameter v rest := by
  obtain ⟨type, name⟩ := v
  simp only [parameterTag, Option.bind_eq_bind, Option.bind_eq_some_iff] at h
  obtain ⟨named, hnamed, opened, hopened, typed, htyped, h⟩ := h
  split at h
  · cases h
  next hne =>
  simp only [Option.bind_eq_some_iff, Option.pure_def, Option.some.injEq, Prod.mk.injEq,
    Text.dropLiteral?_eq_some_iff, dropBlanks?_eq_some_iff] at h hnamed hopened htyped
  obtain ⟨closed, hclosed, started, ⟨blanks', hblanks', rfl, hstarted⟩, ⟨rfl, rfl⟩, rfl⟩ := h
  obtain ⟨blanks, hblanks, rfl, -⟩ := hopened
  have htypes : typed = typed.takeWhile (· ≠ CodePoint.ofChar '}') ++
      (Text.ofString "\x7d" ++ (blanks' ++ started)) := by
    rw [← hclosed, List.takeWhile_append_dropWhile]
  have hnames : started = started.takeWhile isNameChar ++ started.dropWhile isNameChar :=
    List.takeWhile_append_dropWhile.symm
  have hclosed : CodePoint.ofChar '}' ∉ typed.takeWhile (· ≠ CodePoint.ofChar '}') := by
    intro hmem
    have hne := List.mem_takeWhile_imp hmem
    exact absurd rfl (of_decide_eq_true hne)
  refine ⟨_, ?_, ⟨blanks, blanks', hblanks, hblanks', rfl, mt List.isEmpty_iff.mpr hne, hclosed,
    fun c hc ↦ List.mem_takeWhile_imp hc⟩, ?_, fun c hc ↦ ?_⟩
  · rw [hnamed, htyped]
    simp only [List.append_assoc]
    rw [← hnames, ← htypes]
  · rwa [← hnames]
  · have hhead := List.head?_dropWhile_not isNameChar started
    rw [hc] at hhead
    exact hhead

theorem parameterTag_append {v : Text × Text} {part : Text} (hpart : IsParameter v part)
    (hends : EndsParameter v rest) (before : Option CodePoint) :
    parameterTag before (part ++ rest) = some (v, rest) := by
  obtain ⟨type, name⟩ := v
  obtain ⟨blanks, blanks', hblanks, hblanks', rfl, hne, hclosed, hname⟩ := hpart
  obtain ⟨hstart, hrest⟩ := hends
  dsimp only at hne hclosed hname hstart
  have htype : ∀ c ∈ type, decide (c ≠ CodePoint.ofChar '}') = true :=
    fun c hc ↦ decide_eq_true fun heq ↦ hclosed (heq ▸ hc)
  obtain ⟨htake, hdrop⟩ := span_append (t := Text.ofString "\x7d" ++ (blanks' ++ (name ++ rest)))
    htype fun c hc ↦ by cases hc; decide
  obtain ⟨htake', hdrop'⟩ := span_append hname hrest
  have hunblank : StartsUnblank (Text.ofString "\x7b" ++ (type ++
      (Text.ofString "\x7d" ++ (blanks' ++ (name ++ rest))))) := fun c hc ↦ by cases hc; decide
  have hopened := dropBlanks?_eq_some_iff.mpr ⟨blanks, hblanks, rfl, hunblank⟩
  have hnamed := dropBlanks?_eq_some_iff.mpr ⟨blanks', hblanks', rfl, hstart⟩
  have hliteral (literal rest : Text) : Text.dropLiteral? literal (literal ++ rest) = some rest :=
    Text.dropLiteral?_eq_some_iff.mpr rfl
  simp only [List.append_assoc, parameterTag, hliteral, hopened, Option.bind_eq_bind,
    Option.bind_some, htake, hdrop, hnamed, htake', hdrop', Option.pure_def, List.isEmpty_iff, hne,
    if_false]

/-- **The annotation of a parameter** is its type and its name after the header. -/
theorem parameterTag_eq_some_iff {before : Option CodePoint} {v : Text × Text} :
    parameterTag before t = some (v, rest) ↔
      ∃ part, t = part ++ rest ∧ IsParameter v part ∧ EndsParameter v rest := by
  refine ⟨exists_of_parameterTag, ?_⟩
  rintro ⟨part, rfl, hpart, hends⟩
  exact parameterTag_append hpart hends before

/-! ## Annotations before an at sign -/

theorem Blanks.atFree (h : Blanks t) : CodePoint.ofChar '@' ∉ t := by
  intro hmem
  exact absurd (h.2 _ hmem) (by decide)

/-- The text starts with an at sign and holds no other one. -/
def AtFirstOnly (t : Text) : Prop :=
  ∃ s, t = CodePoint.ofChar '@' :: s ∧ CodePoint.ofChar '@' ∉ s

theorem AtFirstOnly.append (h : AtFirstOnly t) (hb : CodePoint.ofChar '@' ∉ b) :
    AtFirstOnly (t ++ b) := by
  obtain ⟨s, rfl, hs⟩ := h
  exact ⟨s ++ b, rfl, by rw [List.mem_append, not_or]; exact ⟨hs, hb⟩⟩

theorem IsRequestHeader.atFirstOnly {header : Text} (h : IsRequestHeader header) :
    AtFirstOnly header := by
  obtain ⟨blanks, hblanks, rfl⟩ := h
  refine ⟨Text.ofString "requestBody" ++ blanks, rfl, ?_⟩
  rw [List.mem_append, not_or]
  exact ⟨by decide, hblanks.atFree⟩

theorem not_isDigit_at : (CodePoint.ofChar '@').digit? = none := by decide

theorem IsResponseHeader.atFirstOnly {status : Nat} {header : Text}
    (h : IsResponseHeader status header) : AtFirstOnly header := by
  obtain ⟨blanks, blanks', a, b, c, x, y, z, hblanks, hblanks', rfl, hx, hy, hz, -⟩ := h
  refine ⟨Text.ofString "responseExample" ++ (blanks ++ (a :: b :: c :: blanks')), rfl, ?_⟩
  have hdigit {c : CodePoint} {n : Nat} (hc : c.digit? = some n) : CodePoint.ofChar '@' ≠ c := by
    rintro rfl
    rw [not_isDigit_at] at hc
    cases hc
  simp only [List.mem_append, List.mem_cons, not_or]
  exact ⟨by decide, hblanks.atFree, hdigit hx, hdigit hy, hdigit hz, hblanks'.atFree⟩

theorem endsBody_append {r w w' : Text} (h : EndsBody (r ++ CodePoint.ofChar '@' :: w)) :
    EndsBody (r ++ CodePoint.ofChar '@' :: w') := by
  cases r with
  | nil => exact .inr (.inl rfl)
  | cons c r =>
    rcases h with h | h | ⟨after, h⟩
    · cases h
    · exact .inr (.inl h)
    · cases r with
      | nil => exact absurd (List.cons.inj (List.cons.inj h).2).1 (by decide)
      | cons d r =>
        obtain ⟨rfl, hrest⟩ := List.cons.inj h
        obtain ⟨rfl, -⟩ := List.cons.inj hrest
        exact .inr (.inr ⟨r ++ CodePoint.ofChar '@' :: w', rfl⟩)

/-- Every type that a parameter opens is closed before the next at sign. -/
def ClosesTypes (t : Text) : Prop :=
  ∀ x blanks y, t = x ++ ("@param" ++ (blanks ++ ("\x7b" ++ y))) → Blanks blanks →
    CodePoint.ofChar '}' ∈ y.takeWhile (· ≠ CodePoint.ofChar '@')

/-- What stands before the first at sign does not depend on what follows it. -/
theorem takeWhile_append_at (y w w' : Text) :
    (y ++ CodePoint.ofChar '@' :: w).takeWhile (· ≠ CodePoint.ofChar '@') =
      (y ++ CodePoint.ofChar '@' :: w').takeWhile (· ≠ CodePoint.ofChar '@') := by
  induction y with
  | nil => rfl
  | cons c y ih =>
    rw [List.cons_append, List.cons_append, List.takeWhile_cons, List.takeWhile_cons, ih]

theorem atFree_of_closes {type rest : Text} (htype : CodePoint.ofChar '}' ∉ type)
    (hclosed : CodePoint.ofChar '}' ∈ (type ++ rest).takeWhile (· ≠ CodePoint.ofChar '@')) :
    CodePoint.ofChar '@' ∉ type := by
  intro hmem
  obtain ⟨front, back, rfl, hfront⟩ := List.eq_append_cons_of_mem hmem
  have hspan := span_append (p := (· ≠ CodePoint.ofChar '@')) (b := front)
    (t := CodePoint.ofChar '@' :: (back ++ rest))
    (fun c hc ↦ decide_eq_true fun heq ↦ hfront (heq ▸ hc)) (fun c hc ↦ by cases hc; decide)
  rw [List.append_assoc, List.cons_append, hspan.1] at hclosed
  exact htype (List.mem_append_left _ hclosed)

theorem IsParameter.atFirstOnly {v : Text × Text} {part : Text} (h : IsParameter v part)
    (htype : CodePoint.ofChar '@' ∉ v.1) : AtFirstOnly part := by
  obtain ⟨blanks, blanks', hblanks, hblanks', rfl, -, -, hname⟩ := h
  have hname' : CodePoint.ofChar '@' ∉ v.2 := fun hmem ↦
    absurd (hname _ hmem) (by decide +kernel)
  refine ⟨Text.ofString "param" ++ (blanks ++ (Text.ofString "\x7b" ++ (v.1 ++
    (Text.ofString "\x7d" ++ (blanks' ++ v.2))))), rfl, ?_⟩
  simp only [List.mem_append, not_or]
  exact ⟨by decide, hblanks.atFree, by decide, htype, by decide, hblanks'.atFree, hname'⟩

/-- Where types are closed, a parameter that starts before an at sign ends before it. -/
theorem parameterTag_endsBefore {x u w : Text}
    (hclosed : ClosesTypes (x ++ (u ++ CodePoint.ofChar '@' :: w))) (hu : u ≠ []) :
    parameterTag.EndsBefore '@' u := by
  refine Pattern.endsBefore_of_iff IsParameter EndsParameter
    (fun t v rest ↦ parameterTag_eq_some_iff) ?_ ?_ hu
  · rintro v part rest w' h hpart
    refine hpart.atFirstOnly ?_
    obtain ⟨blanks, blanks', hblanks, -, rfl, -, htype, -⟩ := hpart
    have hopening : AtFirstOnly (Text.ofString "@param" ++ (blanks ++ Text.ofString "\x7b")) := by
      refine ⟨Text.ofString "param" ++ (blanks ++ Text.ofString "\x7b"), rfl, ?_⟩
      simp only [List.mem_append, not_or]
      exact ⟨by decide, hblanks.atFree, by decide⟩
    obtain ⟨s, hs, hat⟩ := hopening
    have hsplit : u ++ CodePoint.ofChar '@' :: w' = CodePoint.ofChar '@' :: s ++
        (v.1 ++ (Text.ofString "\x7d" ++ (blanks' ++ v.2 ++ rest))) := by
      rw [h, ← hs]
      simp only [List.append_assoc]
    obtain ⟨y, rfl, hrest⟩ := Pattern.exists_of_append_eq hu hat hsplit
    have hmem := hclosed x blanks (y ++ CodePoint.ofChar '@' :: w)
      (by rw [← hs]; simp only [List.append_assoc]) hblanks
    rw [takeWhile_append_at y w w', ← hrest] at hmem
    exact atFree_of_closes htype hmem
  · rintro ⟨type, name⟩ r w w' ⟨hstart, hend⟩
    have hname : (name ++ (r ++ CodePoint.ofChar '@' :: w)).head? =
        (name ++ (r ++ CodePoint.ofChar '@' :: w')).head? := by
      cases name <;> cases r <;> rfl
    have hrest : (r ++ CodePoint.ofChar '@' :: w).head? =
        (r ++ CodePoint.ofChar '@' :: w').head? := by
      cases r <;> rfl
    rw [EndsParameter, StartsUnblank, ← hrest, ← hname]
    exact ⟨hstart, hend⟩

end DocComment

end RouteCatalog
