import RouteCatalog.Json.Reader
import RouteCatalog.Proofs.Json.Lexeme

/-!
# What the reader gives

A value that was read from a text without surrogates can be written and read again
(`fits_of_read`): an escape pairs with the one before it where it can, later members replace
earlier ones with their key, no integer is longer than what is read, and nothing nests deeper than
the reader goes. Each token preserves this of the state and of the open containers.

Brackets that open more containers than may be open at once are refused, whatever follows them
(`read_replicate_opening`).
-/

namespace RouteCatalog.Json

/-! ## Nesting that is too deep -/

private theorem allFrom_replicate_opening (n position : Nat) (rest : Text) :
    Token.allFrom 0 position (List.replicate (n + 1) (CodePoint.ofChar '[') ++ rest) =
      (position, .opening .array) ::
        Token.allFrom 0 (position + 1) (List.replicate n (CodePoint.ofChar '[') ++ rest) := by
  have hfront : Token.IsFront [CodePoint.ofChar '['] (.opening .array)
      (List.replicate n (CodePoint.ofChar '[') ++ rest) := Token.isFront_opening_array
  exact hfront.allFrom_append rfl position

private theorem ofTokens_openings {n length position : Nat} {stack : List Frame}
    (hn : maxDepth ≤ stack.length + n) (hpos : 0 < n) (rest : Text) :
    ofTokens length .firstItem stack
        (Token.allFrom 0 position (List.replicate n (CodePoint.ofChar '[') ++ rest)) =
      .error (.tooDeep .array) := by
  induction n generalizing position stack with
  | zero => cases hpos
  | succ n ih =>
    have hstep : State.step stack position .firstItem (.opening .array) =
        if stack.length + 1 ≥ maxDepth then .error (.tooDeep .array)
          else .ok (.firstItem, .array [] :: stack) := rfl
    rw [allFrom_replicate_opening, ofTokens, hstep]
    by_cases hdeep : stack.length + 1 ≥ maxDepth
    · rw [if_pos hdeep]
    · rw [if_neg hdeep]
      exact ih (by rw [List.length_cons]; omega) (by omega)

/-- **Brackets that open too many containers are refused**, whatever follows them. -/
theorem read_replicate_opening {n : Nat} (hn : maxDepth < n) (rest : Text) :
    read (List.replicate n (CodePoint.ofChar '[') ++ rest) = .error (.tooDeep .array) := by
  obtain ⟨n, rfl⟩ : ∃ m, n = m + 1 := ⟨n - 1, by omega⟩
  have hhead : (List.replicate (n + 1) (CodePoint.ofChar '[') ++ rest).head? ≠
      some (.ofNat 0xFEFF) := by
    rw [List.replicate_succ, List.cons_append, List.head?_cons]
    decide
  have hstep : State.step [] 0 .value (.opening .array) = .ok (.firstItem, []) := rfl
  rw [read, if_neg hhead, Token.all, allFrom_replicate_opening, ofTokens, hstep]
  exact ofTokens_openings (by rw [List.length_nil]; omega) (by rw [maxDepth] at hn; omega) rest

/-! ## Strings -/

namespace Token

/-- The reversed string does not split a pair, and a low surrogate may follow it unless the flag is
set. -/
def Steady (afterHigh : Bool) (done : Text) : Prop :=
  Text.Unsplit done.reverse ∧
    (afterHigh = false → ∀ c ∈ done.head?, c.isHighSurrogate = false)

/-- The flag of a position inside a string. -/
def Within.afterHigh : Within → Bool
  | .plain high => high
  | .escape high => high
  | .hex high _ _ => high

variable {c : CodePoint} {done t : Text} {high : Bool}

theorem unsplit_reverse_cons (h : Text.Unsplit done.reverse)
    (hc : c.isLowSurrogate = true → ∀ b ∈ done.head?, b.isHighSurrogate = false) :
    Text.Unsplit (c :: done).reverse := by
  rw [List.reverse_cons]
  refine List.IsChain.append h (List.IsChain.singleton c) fun b hb a ha hba ↦ ?_
  rw [List.getLast?_reverse] at hb
  cases ha
  rw [hc hba.2 b hb] at hba
  cases hba.1

theorem steady_cons (h : Text.Unsplit done.reverse) (hc : c.isSurrogate = false) (high : Bool) :
    Steady high (c :: done) := by
  rw [CodePoint.isSurrogate, Bool.or_eq_false_iff] at hc
  refine ⟨unsplit_reverse_cons h fun hlow ↦ ?_, fun _ b hb ↦ ?_⟩
  · rw [hc.2] at hlow
    cases hlow
  · cases hb
    exact hc.1

theorem isSurrogate_of_shortEscape? {e : CodePoint} (h : shortEscape? c = some e) :
    e.isSurrogate = false := by
  unfold shortEscape? at h
  split_ifs at h with hmark <;> cases h
  · simp only [Bool.or_eq_true, decide_eq_true_eq] at hmark
    rcases hmark with (rfl | rfl) | rfl <;> decide
  all_goals decide

theorem isSurrogate_joinPair (high low : CodePoint) : (joinPair high low).isSurrogate = false := by
  rw [joinPair]
  exact CodePoint.isSurrogate_ofNat (.inr (by omega))

theorem Steady.pushEscaped (h : Steady high done) (c : CodePoint) :
    Steady c.isHighSurrogate (pushEscaped high done c) := by
  have hpush (hc : c.isLowSurrogate = true → ∀ b ∈ done.head?, b.isHighSurrogate = false) :
      Steady c.isHighSurrogate (c :: done) := by
    refine ⟨unsplit_reverse_cons h.1 hc, fun hhigh b hb ↦ ?_⟩
    cases hb
    exact hhigh
  unfold Token.pushEscaped
  cases hpair : high && c.isLowSurrogate with
  | true =>
    cases done with
    | nil => exact hpush fun _ b hb ↦ by cases hb
    | cons before rest =>
      have hrest := h.1
      rw [List.reverse_cons] at hrest
      exact steady_cons hrest.left_of_append (isSurrogate_joinPair before c) _
  | false =>
    refine hpush fun hlow ↦ h.2 ?_
    rwa [hlow, Bool.and_true] at hpair

/-- **A string of a text without surrogates splits no pair**, wherever the reading of it stands. -/
theorem unsplit_of_readText {start position stop : Nat} {state : Within} {value : Text}
    (ht : t.SurrogateFree) (hdone : Steady state.afterHigh done)
    (h : readText start state position done t = .ok (value, stop)) : value.Unsplit := by
  -- The invariant is that what was read is steady: it splits no pair, and a high surrogate at
  -- its end is known.
  induction t generalizing state position done with
  | nil => cases state <;> cases h
  | cons c t ih =>
    have htail : Text.SurrogateFree t := fun d hd ↦ ht d (List.mem_cons_of_mem c hd)
    cases state with
    | plain high =>
      rw [readText] at h
      split at h
      · cases h
        exact hdone.1
      · split at h
        · refine ih htail ?_ h
          exact hdone
        · split at h
          · cases h
          · refine ih htail ?_ h
            exact steady_cons hdone.1 (ht c List.mem_cons_self) _
    | escape high =>
      rw [readText] at h
      split at h
      · refine ih htail ?_ h
        exact hdone
      · split at h
        · next e he =>
          refine ih htail ?_ h
          exact steady_cons hdone.1 (isSurrogate_of_shortEscape? he) _
        · cases h
    | hex high left n =>
      rw [readText] at h
      split at h
      · cases h
      · dsimp only at h
        split at h
        · split at h
          · cases h
          · refine ih htail ?_ h
            exact hdone.pushEscaped _
        · refine ih htail ?_ h
          exact hdone

/-! ## Tokens -/

/-- What the token holds can be written. -/
def Sound : Token → Prop
  | .text value => value.Unsplit
  | .scalar v => v.Storable ∧ v.depth = 0
  | _ => True

theorem digits_of_whole? {whole rest : Text} (h : whole? t = some (whole, rest)) :
    0 < whole.length ∧ ∀ c ∈ whole, c.isAsciiDigit = true := by
  cases t with
  | nil => cases h
  | cons c t =>
    rw [whole?] at h
    split at h
    · next hzero =>
      cases h
      refine ⟨Nat.one_pos, fun d hd ↦ ?_⟩
      rw [List.mem_singleton.mp hd, hzero]
      rfl
    · split at h
      · next hdigit =>
        cases h
        exact ⟨Nat.succ_pos _,
          List.forall_mem_cons.mpr ⟨hdigit, fun d hd ↦ List.mem_takeWhile_imp hd⟩⟩
      · cases h

theorem sound_unsigned? {negative : Bool} {token : Token} {rest : Text}
    (h : unsigned? negative t = some (token, rest)) : token.Sound := by
  obtain ⟨⟨whole, after⟩, hwhole, htoken⟩ := Option.map_eq_some_iff.mp h
  obtain ⟨hpos, hdigits⟩ := digits_of_whole? hwhole
  dsimp only at htoken
  split at htoken
  · split at htoken
    · cases htoken
      trivial
    · next hlength =>
      cases htoken
      have habs : (if negative then -(digitsValue whole : Int) else digitsValue whole).natAbs =
          digitsValue whole := by
        cases negative with
        | true => exact Int.natAbs_neg _
        | false => rfl
      refine ⟨storable_int (le_trans ?_ (Nat.not_lt.mp hlength)), rfl⟩
      rw [habs]
      exact Numeral.length_toDigits_le hpos (digitsValue_lt hdigits)
  · cases htoken
    exact ⟨⟨trivial, trivial, trivial⟩, rfl⟩
  · cases htoken
    exact ⟨⟨trivial, trivial, trivial⟩, rfl⟩

theorem sound_number? {token : Token} {rest : Text} (h : number? t = some (token, rest)) :
    token.Sound := by
  rw [number?] at h
  split at h
  · exact sound_unsigned? h
  · exact sound_unsigned? h

theorem sound_atFront (position : Nat) (c : CodePoint) (ht : t.SurrogateFree) :
    (atFront position c t).1.Sound := by
  have hwords : ∀ w ∈ words, w.2.Storable ∧ w.2.depth = 0 := by
    have hscalars : ∀ w ∈ words, (w.2.Unsplit ∧ w.2.Distinct ∧ w.2.Short) ∧ w.2.depth = 0 := by
      decide
    intro w hw
    obtain ⟨⟨hunsplit, hdistinct, hshort⟩, hdepth⟩ := hscalars w hw
    exact ⟨⟨hunsplit, hdistinct, hshort⟩, hdepth⟩
  unfold atFront
  split_ifs
  -- Six of the tokens are marks and hold nothing.
  iterate 6 exact trivial
  · split
    · next value stop hread =>
      have hstart : Steady (Within.plain false).afterHigh [] :=
        ⟨List.IsChain.nil, fun _ b hb ↦ by cases hb⟩
      exact unsplit_of_readText ht hstart hread
    · trivial
  · split
    · next w v hfind => exact hwords (w, v) (List.mem_of_find?_eq_some hfind)
    · split
      · next token rest hnumber => exact sound_number? hnumber
      · trivial

theorem sound_of_mem_allFrom {skip position : Nat} (ht : t.SurrogateFree) :
    ∀ found ∈ allFrom skip position t, found.2.Sound := by
  induction t generalizing skip position with
  | nil => cases skip <;> exact fun _ h ↦ absurd h List.not_mem_nil
  | cons c t ih =>
    have htail : Text.SurrogateFree t := fun d hd ↦ ht d (List.mem_cons_of_mem c hd)
    cases skip with
    | succ skip => exact ih htail
    | zero =>
      rw [allFrom]
      split
      · exact ih htail
      · have hfirst := sound_atFront position c htail
        dsimp only
        split
        · exact List.forall_mem_singleton.mpr hfirst
        · exact List.forall_mem_cons.mpr ⟨hfirst, ih htail⟩

end Token

/-! ## Values -/

/-- The value can be written, and inside `n` containers it nests no deeper than what is read. -/
structure Fits (n : Nat) (v : Json) : Prop where
  storable : v.Storable
  depth_add_le : v.depth + n ≤ maxDepth

/-- The members of an object fit inside `n` containers, but for the keys that they share. -/
def FitMembers (n : Nat) (members : List (Text × Json)) : Prop :=
  ∀ m ∈ members, m.1.Unsplit ∧ Fits n m.2

/-- What an open container holds so far fits inside `n` containers. -/
def Frame.Sound (n : Nat) : Frame → Prop
  | .array items => ∀ v ∈ items, Fits n v
  | .object members key => FitMembers n members ∧ key.Unsplit

/-- What each open container holds fits inside it and those around it. -/
def StackSound : List Frame → Prop
  | [] => True
  | frame :: rest => rest.length < maxDepth ∧ frame.Sound (rest.length + 1) ∧ StackSound rest

/-- What a state holds fits inside the open containers. -/
def State.Sound (stack : List Frame) : State → Prop
  | .value => True
  | .firstItem | .firstKey => stack.length < maxDepth
  | .key members => stack.length < maxDepth ∧ FitMembers (stack.length + 1) members
  | .colon members name =>
    stack.length < maxDepth ∧ FitMembers (stack.length + 1) members ∧ name.Unsplit
  | .after v => Fits stack.length v

variable {stack stack' : List Frame} {position n : Nat} {state state' : State} {token : Token}

theorem fitMembers_nil : FitMembers n [] := fun _ hm ↦ absurd hm List.not_mem_nil

theorem fitMembers_cons {members : List (Text × Json)} {key : Text} {v : Json}
    (h : FitMembers n members) (hkey : key.Unsplit) (hv : Fits n v) :
    FitMembers n ((key, v) :: members) := List.forall_mem_cons.mpr ⟨⟨hkey, hv⟩, h⟩

theorem fits_of_scalar {v : Json} (hv : v.Storable) (hdepth : v.depth = 0) (hn : n ≤ maxDepth) :
    Fits n v := ⟨hv, by rwa [hdepth, Nat.zero_add]⟩

theorem fits_arr {items : List Json} (hn : n < maxDepth) (h : ∀ v ∈ items, Fits (n + 1) v) :
    Fits n (.arr items) where
  storable := storable_arr fun v hv ↦ (h v hv).storable
  depth_add_le := by
    have hitems : depthItems items ≤ maxDepth - (n + 1) :=
      depthItems_le_iff.mpr fun v hv ↦ Nat.le_sub_of_add_le (h v hv).depth_add_le
    rw [depth]
    omega

theorem fits_ofMembers {members : List (Text × Json)} (hn : n < maxDepth)
    (h : FitMembers (n + 1) members) : Fits n (ofMembers members) where
  storable := storable_ofMembers fun m hm ↦ ⟨(h m hm).1, (h m hm).2.storable⟩
  depth_add_le := by
    have hmembers : depthMembers (setMembers [] members) ≤ maxDepth - (n + 1) := by
      refine depthMembers_le_iff.mpr fun m hm ↦ Nat.le_sub_of_add_le ?_
      rcases mem_setMembers hm with hm | hm
      · cases hm
      · exact (h m hm).2.depth_add_le
    rw [ofMembers_eq, depth]
    omega

theorem length_le_of_stackSound (h : StackSound stack) : stack.length ≤ maxDepth := by
  cases stack with
  | nil => exact Nat.zero_le _
  | cons frame rest => exact h.1

theorem sound_valueStep (position : Nat) (hstack : StackSound stack) (htoken : token.Sound)
    (h : State.step.valueStep stack position token = .ok (state', stack')) :
    state'.Sound stack' ∧ StackSound stack' := by
  have hlength : stack.length ≤ maxDepth := length_le_of_stackSound hstack
  cases token with
  | opening c =>
    unfold State.step.valueStep at h
    dsimp only at h
    split at h
    · cases h
    · next hopen =>
      have hlength : stack.length < maxDepth := Nat.not_le.mp hopen
      cases c with
      | array => cases h; exact ⟨hlength, hstack⟩
      | object => cases h; exact ⟨hlength, hstack⟩
  | text value => cases h; exact ⟨fits_of_scalar (storable_str htoken) rfl hlength, hstack⟩
  | scalar v => cases h; exact ⟨fits_of_scalar htoken.1 htoken.2 hlength, hstack⟩
  | closing | comma | colon | longNumber | brokenText | stray => cases h

theorem sound_keyStep (position : Nat) {members : List (Text × Json)}
    (hstack : StackSound stack) (hlength : stack.length < maxDepth)
    (hmembers : FitMembers (stack.length + 1) members) (htoken : token.Sound)
    (h : State.step.keyStep stack position members token = .ok (state', stack')) :
    state'.Sound stack' ∧ StackSound stack' := by
  cases token with
  | text name => cases h; exact ⟨⟨hlength, hmembers, htoken⟩, hstack⟩
  | opening | closing | comma | colon | scalar | longNumber | brokenText | stray => cases h

theorem sound_afterStep {v : Json} (hv : Fits stack.length v) (hstack : StackSound stack)
    (h : State.step stack position (.after v) token = .ok (state', stack')) :
    state'.Sound stack' ∧ StackSound stack' := by
  cases stack with
  | nil => cases h
  | cons frame rest =>
    obtain ⟨hlength, hframe, hrest⟩ := hstack
    cases frame with
    | array items =>
      have hitems : ∀ w ∈ v :: items, Fits (rest.length + 1) w :=
        List.forall_mem_cons.mpr ⟨hv, hframe⟩
      cases token with
      | comma =>
        cases h
        exact ⟨trivial, hlength, hitems, hrest⟩
      | closing c =>
        cases c with
        | array =>
          cases h
          exact ⟨fits_arr hlength fun w hw ↦ hitems w (List.mem_reverse.mp hw), hrest⟩
        | object => cases h
      | opening | colon | text | scalar | longNumber | brokenText | stray => cases h
    | object members key =>
      have hmembers := fitMembers_cons hframe.1 hframe.2 hv
      cases token with
      | comma =>
        cases h
        exact ⟨⟨hlength, hmembers⟩, hrest⟩
      | closing c =>
        cases c with
        | array => cases h
        | object =>
          cases h
          exact ⟨fits_ofMembers hlength fun m hm ↦ hmembers m (List.mem_reverse.mp hm), hrest⟩
      | opening | colon | text | scalar | longNumber | brokenText | stray => cases h

theorem sound_step (hstate : state.Sound stack) (hstack : StackSound stack)
    (htoken : token.Sound) (h : state.step stack position token = .ok (state', stack')) :
    state'.Sound stack' ∧ StackSound stack' := by
  cases state with
  | value => exact sound_valueStep position hstack htoken h
  -- At the first item the array is already on the stack unless it ends at once.
  | firstItem =>
    have hframes : StackSound (.array [] :: stack) :=
      ⟨hstate, fun v hv ↦ absurd hv List.not_mem_nil, hstack⟩
    cases token with
    | closing c =>
      cases c with
      | array =>
        cases h
        exact ⟨fits_arr hstate fun v hv ↦ absurd hv List.not_mem_nil, hstack⟩
      | object => cases h
    | _ => exact sound_valueStep position hframes htoken h
  | firstKey =>
    cases token with
    | closing c =>
      cases c with
      | array => cases h
      | object =>
        cases h
        exact ⟨fits_ofMembers hstate fitMembers_nil, hstack⟩
    | _ => exact sound_keyStep position hstack hstate fitMembers_nil htoken h
  | key members => exact sound_keyStep position hstack hstate.1 hstate.2 htoken h
  | colon members name =>
    cases token with
    | colon =>
      cases h
      exact ⟨trivial, hstate.1, hstate.2, hstack⟩
    | opening | closing | comma | text | scalar | longNumber | brokenText | stray => cases h
  | after v => exact sound_afterStep hstate hstack h

theorem fits_of_ofTokens {length : Nat} {tokens : List (Nat × Token)} {v : Json}
    (htokens : ∀ found ∈ tokens, found.2.Sound) (hstate : state.Sound stack)
    (hstack : StackSound stack) (h : ofTokens length state stack tokens = .ok v) :
    Fits 0 v := by
  induction tokens generalizing state stack with
  | nil =>
    -- the text may end only after a value, with nothing open
    cases state with
    | after w =>
      rw [ofTokens, State.finish] at h
      split at h
      · next hempty =>
        cases h
        rwa [State.Sound, List.isEmpty_iff.mp hempty] at hstate
      · cases h
    | value | firstItem | firstKey | key | colon => cases h
  | cons found rest ih =>
    obtain ⟨hfirst, hrest⟩ := List.forall_mem_cons.mp htokens
    rw [ofTokens] at h
    split at h
    · cases h
    · next hstep =>
      obtain ⟨hstate', hstack'⟩ := sound_step hstate hstack hfirst hstep
      exact ih hrest hstate' hstack' h

/-- **What is read from a text without surrogates can be written**, and nests no deeper than what
is read. -/
theorem fits_of_read {t : Text} {v : Json} (ht : t.SurrogateFree) (h : read t = .ok v) :
    Fits 0 v := by
  rw [read] at h
  split at h
  · cases h
  · have hvalue : State.value.Sound [] := trivial
    exact fits_of_ofTokens (Token.sound_of_mem_allFrom ht) hvalue trivial h

end RouteCatalog.Json
