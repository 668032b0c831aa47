import RouteCatalog.Proofs.Json.Extent
import RouteCatalog.Proofs.Json.Nesting

/-!
# The layout of a JSON text

A JSON text is cut into lexemes with blanks between them (`CutsInto`), and only the tokens count for
what is read (`read_of_cutsInto`). So blanks may be left out at the front of the text
(`CutsInto.dropBlanks`) and at the ends of its lines (`CutsInto.trims`), since none of them is part
of a lexeme.
-/

namespace RouteCatalog.Json

namespace Token

variable {t x rest rest' : Text} {token : Token} {tokens : List Token}

/-! ## Cutting -/

/-- A text consists of the lexemes of tokens, with blanks between them. -/
inductive CutsInto : Text → List Token → Prop
  | nil : CutsInto [] []
  /-- A blank belongs to no token. -/
  | blank {c : CodePoint} {t : Text} {tokens : List Token} (hc : isBlank c = true)
      (h : CutsInto t tokens) : CutsInto (c :: t) tokens
  /-- A token takes its lexeme. -/
  | token {text rest : Text} {token : Token} {tokens : List Token}
      (htoken : IsLexeme text token rest) (h : CutsInto rest tokens) :
      CutsInto (text ++ rest) (token :: tokens)

theorem Follows.of_isBlank {c : CodePoint} (hc : isBlank c = true) (rest t : Text) :
    Follows rest (c :: t) := by
  simp only [isBlank, Bool.or_eq_true, decide_eq_true_eq] at hc
  refine ⟨fun _ d hd ↦ ?_, fun d hd ↦ ?_⟩ <;> cases hd <;>
    rcases hc with ((rfl | rfl) | rfl) | rfl <;> decide

theorem Follows.nil (rest : Text) : Follows rest [] :=
  ⟨fun _ _ hd ↦ (by cases hd), fun _ hd ↦ (by cases hd)⟩

/-- A lexeme does not start with a character that may go on with a number. -/
theorem IsLexeme.head_ne {text : Text} (h : IsLexeme text token rest) :
    ∃ c t, text = c :: t ∧ c ≠ '.' ∧ c ≠ 'e' ∧ c ≠ 'E' := by
  obtain ⟨c, t, rfl, -, hfront⟩ := h.front [] (.nil rest)
  have hstray (hc : ∀ t, (atFront 0 c t).1 = .stray) : False := by
    have htoken := hc (t ++ [])
    rw [hfront 0] at htoken
    obtain rfl := htoken
    cases h.notLast
  refine ⟨c, t, rfl, ?_, ?_, ?_⟩ <;> rintro rfl <;> exact hstray fun _ ↦ rfl

/-- After a lexeme may stand what starts in the same way as a text that is cut. -/
theorem Follows.of_isLexeme {text : Text} (h : IsLexeme text token rest) (t t' : Text) :
    Follows (text ++ t) (text ++ t') := by
  obtain ⟨c, x, rfl, hinside⟩ := h.head_ne
  exact ⟨id, fun d hd ↦ by cases hd; exact hinside⟩

theorem CutsInto.follows (h : CutsInto t tokens) : Follows t t := by
  cases h with
  | nil => exact .nil []
  | blank hc h => exact .of_isBlank hc _ _
  | token htoken h => exact .of_isLexeme htoken _ _

theorem Follows.trans {t : Text} (h : Follows t rest) (h' : Follows rest rest') : Follows t rest' :=
  ⟨h'.digit ∘ h.digit, h'.inside⟩

theorem IsLexeme.follows {text : Text} (h : IsLexeme text token rest) (h' : Follows rest rest') :
    IsLexeme text token rest' :=
  { h with front := fun _ hnext ↦ h.front _ (h'.trans hnext) }

/-- **The tokens are those that a text is cut into.** -/
theorem CutsInto.map_allFrom (h : CutsInto t tokens) (position : Nat) :
    (allFrom 0 position t).map Prod.snd = tokens := by
  induction h generalizing position with
  | nil => rfl
  | blank hc h ih => rw [allFrom_blank hc, ih]
  | token htoken h ih =>
    rw [(htoken.front _ h.follows).allFrom_append htoken.notLast, List.map_cons, ih]

theorem CutsInto.isLast_eq_false (h : CutsInto t tokens) :
    ∀ token ∈ tokens, token.isLast = false := by
  induction h with
  | nil => exact fun _ hmem ↦ absurd hmem List.not_mem_nil
  | blank hc h ih => exact ih
  | token htoken h ih => exact List.forall_mem_cons.mpr ⟨htoken.notLast, ih⟩

theorem exists_cutsInto {position : Nat}
    (h : ∀ found ∈ allFrom 0 position t, found.2.isLast = false) :
    ∃ tokens, CutsInto t tokens := by
  induction hn : t.length using Nat.strong_induction_on generalizing t position with
  | _ n ih =>
    subst hn
    cases t with
    | nil => exact ⟨[], .nil⟩
    | cons c t =>
      rw [allFrom] at h
      split at h
      · next hblank =>
        obtain ⟨tokens, htokens⟩ := ih t.length (Nat.lt_succ_self _) h rfl
        exact ⟨tokens, .blank hblank htokens⟩
      · rcases hfront : atFront position c t with ⟨token, length⟩
        rw [hfront] at h
        dsimp only at h
        split at h
        · next hlast =>
          rw [List.forall_mem_singleton.mp h] at hlast
          cases hlast
        · next hlast =>
          obtain ⟨hnotLast, h⟩ := List.forall_mem_cons.mp h
          obtain ⟨x, rest, rfl, rfl, hlexeme⟩ := exists_isLexeme hfront hnotLast
          rw [Nat.add_sub_cancel, allFrom_skip] at h
          have hshort : rest.length < (c :: (x ++ rest)).length := by
            rw [List.length_cons, List.length_append]
            omega
          obtain ⟨tokens, htokens⟩ := ih rest.length hshort h rfl
          exact ⟨token :: tokens, .token hlexeme htokens⟩

/-! ## Blanks that may be left out -/

/-- The other text is the same but for blanks at the ends of lines. -/
inductive Trims : Text → Text → Prop
  | nil : Trims [] []
  | keep (c : CodePoint) {t t' : Text} (h : Trims t t') : Trims (c :: t) (c :: t')
  /-- A blank may be left out where a line ends. -/
  | drop {c : CodePoint} {t t' : Text} (hc : c.isBlank = true)
      (hend : t' = [] ∨ t'.head? = some (CodePoint.ofChar '\n')) (h : Trims t t') :
      Trims (c :: t) t'

theorem Trims.exists_append {text t' : Text} (h : Trims (text ++ rest) t')
    (hline : CodePoint.ofChar '\n' ∉ text) (hlast : ∀ c ∈ text.getLast?, c.isBlank = false) :
    ∃ rest', t' = text ++ rest' ∧ Trims rest rest' := by
  induction text generalizing t' with
  | nil => exact ⟨t', rfl, h⟩
  | cons c text ih =>
    rw [List.mem_cons, not_or] at hline
    have hlast' : ∀ c ∈ text.getLast?, c.isBlank = false := by
      intro d hd
      refine hlast d ?_
      rw [List.getLast?_cons, hd]
      rfl
    rw [List.cons_append] at h
    cases h with
    | keep _ h =>
      obtain ⟨rest', rfl, hrest⟩ := ih h hline.2 hlast'
      exact ⟨rest', rfl, hrest⟩
    | drop hc hend h =>
      obtain ⟨rest', rfl, hrest⟩ := ih h hline.2 hlast'
      cases text with
      | nil =>
        rw [hlast c rfl] at hc
        cases hc
      | cons d text =>
        rcases hend with hend | hend
        · cases hend
        · cases hend
          exact absurd List.mem_cons_self hline.2

/-- **Blanks at the ends of lines do not count.** -/
theorem CutsInto.trims {t' : Text} (h : CutsInto t tokens) (ht : Trims t t') :
    CutsInto t' tokens ∧ Follows t t' := by
  induction h generalizing t' with
  | nil =>
    cases ht
    exact ⟨.nil, .nil []⟩
  | blank hc h ih =>
    cases ht with
    | keep _ ht => exact ⟨.blank hc (ih ht).1, .of_isBlank hc _ _⟩
    | drop _ hend ht =>
      refine ⟨(ih ht).1, ?_⟩
      rcases hend with rfl | hend
      · exact .nil _
      · obtain ⟨after, rfl⟩ := List.head?_eq_some_iff.mp hend
        exact .of_isBlank (by decide) _ _
  | token htoken h ih =>
    obtain ⟨rest', rfl, hrest⟩ := ht.exists_append htoken.oneLine htoken.last
    obtain ⟨hcuts, hfollows⟩ := ih hrest
    exact ⟨.token (htoken.follows hfollows) hcuts, .of_isLexeme htoken _ _⟩

theorem CutsInto.append_blank {c : CodePoint} (hc : isBlank c = true) (h : CutsInto t tokens) :
    CutsInto (t ++ [c]) tokens ∧ Follows t (t ++ [c]) := by
  induction h with
  | nil => exact ⟨.blank hc .nil, .of_isBlank hc _ _⟩
  | blank hd h ih => exact ⟨.blank hd ih.1, .of_isBlank hd _ _⟩
  | token htoken h ih =>
    rw [List.append_assoc]
    exact ⟨.token (htoken.follows ih.2) ih.1, .of_isLexeme htoken _ _⟩

/-- **Blanks at the front do not count.** -/
theorem CutsInto.dropBlanks (h : CutsInto (x ++ t) tokens) (hx : ∀ c ∈ x, c.isBlank = true) :
    CutsInto t tokens := by
  induction x with
  | nil => exact h
  | cons c x ih =>
    obtain ⟨hc, hx⟩ := List.forall_mem_cons.mp hx
    obtain ⟨s, hs⟩ : ∃ s, s = c :: x ++ t := ⟨_, rfl⟩
    rw [← hs] at h
    cases h with
    | nil => cases hs
    | blank _ h =>
      obtain ⟨-, rfl⟩ := List.cons.inj hs
      exact ih h hx
    | token htoken h =>
      -- A token does not start with a blank.
      obtain ⟨d, y, rfl, -⟩ := htoken.head_ne
      obtain ⟨rfl, -⟩ := List.cons.inj hs
      rw [htoken.head d rfl] at hc
      cases hc

theorem CutsInto.trimLeft (h : CutsInto t tokens) : CutsInto t.trimLeft tokens :=
  CutsInto.dropBlanks (x := t.takeWhile CodePoint.isBlank)
    (by rwa [Text.trimLeft, List.takeWhile_append_dropWhile])
    fun _ hc ↦ List.mem_takeWhile_imp hc

theorem trims_trimRight (t : Text) : Trims t t.trimRight := by
  induction t with
  | nil => exact .nil
  | cons c t ih =>
    rw [Text.trimRight]
    split
    · next hnil =>
      rw [hnil] at ih
      split
      · next hc => exact .drop hc (.inl rfl) ih
      · exact .keep c ih
    · exact .keep c ih

theorem Trims.append_line {l l' r r' : Text} (hl : Trims l l') (hr : Trims r r') :
    Trims (l ++ CodePoint.ofChar '\n' :: r) (l' ++ CodePoint.ofChar '\n' :: r') := by
  induction hl with
  | nil => exact .keep _ hr
  | keep c hl ih => exact .keep c ih
  | drop hc hend hl ih =>
    refine .drop hc (.inr ?_) ih
    rcases hend with rfl | hend
    · rfl
    · rw [List.head?_append, hend]
      rfl

theorem trims_join (lines : List Text) :
    Trims (Text.join "\n" lines) (Text.join "\n" (lines.map Text.trimRight)) := by
  induction lines with
  | nil => exact .nil
  | cons line lines ih =>
    cases lines with
    | nil =>
      rw [List.map_singleton, Text.join_singleton, Text.join_singleton]
      exact trims_trimRight line
    | cons next lines =>
      rw [List.map_cons, List.map_cons, Text.join_cons_cons, Text.join_cons_cons, List.append_assoc,
        List.append_assoc, ← List.map_cons]
      exact (trims_trimRight line).append_line ih

end Token

/-! ## Reading -/

section Reading

variable {t t' : Text} {tokens : List Token} {stack stack' : List Frame} {state state' : State}
  {token : Token}

theorem valueStep_eq_ok {position : Nat}
    (h : State.step.valueStep stack position token = .ok (state', stack')) :
    token.isLast = false ∧
      ∀ position', State.step.valueStep stack position' token = .ok (state', stack') := by
  cases token with
  | opening | text | scalar => exact ⟨rfl, fun _ ↦ h⟩
  | closing | comma | colon | longNumber | brokenText | stray => cases h

theorem keyStep_eq_ok {position : Nat} {members : List (Text × Json)}
    (h : State.step.keyStep stack position members token = .ok (state', stack')) :
    token.isLast = false ∧
      ∀ position', State.step.keyStep stack position' members token = .ok (state', stack') := by
  cases token with
  | text => exact ⟨rfl, fun _ ↦ h⟩
  | opening | closing | comma | colon | scalar | longNumber | brokenText | stray => cases h

/-- A token that is taken is not faulty, and is taken in the same way wherever it stands. -/
theorem step_eq_ok {position : Nat}
    (h : state.step stack position token = .ok (state', stack')) :
    token.isLast = false ∧
      ∀ position', state.step stack position' token = .ok (state', stack') := by
  cases state with
  | value => exact valueStep_eq_ok h
  | firstItem =>
    by_cases hclosing : token = .closing .array
    · subst hclosing
      exact ⟨rfl, fun _ ↦ h⟩
    · rw [State.starts_firstItem stack position token hclosing] at h
      refine ⟨(valueStep_eq_ok h).1, fun position' ↦ ?_⟩
      rw [State.starts_firstItem stack position' token hclosing]
      exact (valueStep_eq_ok h).2 position'
  | firstKey =>
    by_cases hclosing : token = .closing .object
    · subst hclosing
      exact ⟨rfl, fun _ ↦ h⟩
    · rw [step_firstKey hclosing] at h
      refine ⟨(keyStep_eq_ok h).1, fun position' ↦ ?_⟩
      rw [step_firstKey hclosing]
      exact (keyStep_eq_ok h).2 position'
  | key members => exact keyStep_eq_ok h
  | colon members name =>
    cases token with
    | colon => exact ⟨rfl, fun _ ↦ h⟩
    | opening | closing | comma | text | scalar | longNumber | brokenText | stray => cases h
  | after v =>
    cases stack with
    | nil => cases h
    | cons frame rest =>
      cases frame <;> cases token with
      | comma => exact ⟨rfl, fun _ ↦ h⟩
      | closing c =>
        cases c with
        | array => first | exact ⟨rfl, fun _ ↦ h⟩ | cases h
        | object => first | exact ⟨rfl, fun _ ↦ h⟩ | cases h
      | opening | colon | text | scalar | longNumber | brokenText | stray => cases h

theorem ofTokens_eq_ok {v : Json} {length : Nat} {found : List (Nat × Token)}
    (h : ofTokens length state stack found = .ok v) :
    (∀ token ∈ found, token.2.isLast = false) ∧ ∀ length' found',
      found'.map Prod.snd = found.map Prod.snd → ofTokens length' state stack found' = .ok v := by
  induction found generalizing state stack with
  | nil =>
    refine ⟨fun _ hmem ↦ absurd hmem List.not_mem_nil, fun length' found' hfound' ↦ ?_⟩
    obtain rfl := List.map_eq_nil_iff.mp hfound'
    rw [ofTokens] at h ⊢
    cases state with
    | after v =>
      rw [State.finish] at h ⊢
      split at h
      · next hempty =>
        rw [if_pos hempty]
        exact h
      · cases h
    | value | firstItem | firstKey | key | colon => cases h
  | cons first found ih =>
    obtain ⟨position, token⟩ := first
    rw [ofTokens] at h
    split at h
    · cases h
    · next state' stack' hstep =>
      obtain ⟨hlast, hanywhere⟩ := step_eq_ok hstep
      obtain ⟨hfound, hread⟩ := ih h
      refine ⟨List.forall_mem_cons.mpr ⟨hlast, hfound⟩, fun length' found' hfound' ↦ ?_⟩
      cases found' with
      | nil => cases hfound'
      | cons first' found' =>
        obtain ⟨position', token'⟩ := first'
        obtain ⟨rfl, hrest⟩ := List.cons.inj hfound'
        rw [ofTokens, hanywhere position']
        exact hread length' found' hrest

theorem exists_cutsInto_of_read {v : Json} (h : read t = .ok v) :
    ∃ tokens, Token.CutsInto t tokens := by
  rw [read] at h
  split at h
  · cases h
  · exact Token.exists_cutsInto (ofTokens_eq_ok h).1

/-- **A text is read as its tokens say.** -/
theorem read_of_cutsInto {v : Json} (ht : Token.CutsInto t tokens) (ht' : Token.CutsInto t' tokens)
    (h : read t = .ok v) : read t' = .ok v := by
  have hmark : t'.head? ≠ some (.ofNat 0xFEFF) := by
    intro hhead
    obtain ⟨after, rfl⟩ := List.head?_eq_some_iff.mp hhead
    obtain rfl : [Token.stray] = tokens := ht'.map_allFrom 0
    cases ht'.isLast_eq_false .stray List.mem_cons_self
  rw [read] at h
  rw [read, if_neg hmark]
  split at h
  · cases h
  · exact (ofTokens_eq_ok h).2 _ _ ((ht'.map_allFrom 0).trans (ht.map_allFrom 0).symm)

end Reading

end RouteCatalog.Json
