import RouteCatalog.Proofs.Json.RoundTrip

/-!
# How deep a text nests

Brackets nest as they come, in any text, JSON or not (`nesting`). The reader never has more
containers open than brackets are, so a text that nests within the limit is never refused for its
nesting (`read_of_nesting_lt`), whatever else is wrong with it.
-/

namespace RouteCatalog.Json

/-- How many brackets are open after a token; one that closes nothing does not count. -/
def Token.depth (depth : Nat) : Token → Nat
  | .opening _ => depth + 1
  | .closing _ => depth - 1
  | _ => depth

/-- The most brackets that are open at once from some tokens on. -/
def nestingFrom : (depth : Nat) → List (Nat × Token) → Nat
  | depth, [] => depth
  | depth, (_, token) :: rest => max depth (nestingFrom (token.depth depth) rest)

/-- The most brackets that are open at once in a text. -/
def nesting (t : Text) : Nat := nestingFrom 0 (Token.all t)

/-- How many containers are open in a state: those on the stack and, where the state holds one that
is not there yet, this one. -/
def State.depth (stack : List Frame) : State → Nat
  | .value | .after _ => stack.length
  | .firstItem | .firstKey | .key _ | .colon _ _ => stack.length + 1

variable {stack stack' : List Frame} {position depth : Nat} {state state' : State} {token : Token}

/-! ## One token -/

/-- A token is taken as the first key of an object, unless it closes it. -/
theorem step_firstKey (htoken : token ≠ .closing .object) :
    State.firstKey.step stack position token = State.step.keyStep stack position [] token := by
  cases token with
  | closing c =>
    cases c with
    | array => rfl
    | object => exact absurd rfl htoken
  | _ => rfl

/-- A token where a value is expected, with the containers that are open on the stack. -/
theorem depth_valueStep (hdepth : stack.length ≤ depth)
    (h : State.step.valueStep stack position token = .ok (state', stack')) :
    state'.depth stack' ≤ token.depth depth := by
  cases token with
  | opening c =>
    unfold State.step.valueStep at h
    dsimp only at h
    split at h
    · cases h
    · cases c with
      | array => cases h; exact Nat.succ_le_succ hdepth
      | object => cases h; exact Nat.succ_le_succ hdepth
  | text value => cases h; exact hdepth
  | scalar v => cases h; exact hdepth
  | closing | comma | colon | longNumber | brokenText | stray => cases h

theorem depth_keyStep {members : List (Text × Json)} (hdepth : stack.length + 1 ≤ depth)
    (h : State.step.keyStep stack position members token = .ok (state', stack')) :
    state'.depth stack' ≤ token.depth depth := by
  cases token with
  | text name => cases h; exact hdepth
  | opening | closing | comma | colon | scalar | longNumber | brokenText | stray => cases h

theorem depth_afterStep {v : Json} (hdepth : stack.length ≤ depth)
    (h : State.step stack position (.after v) token = .ok (state', stack')) :
    state'.depth stack' ≤ token.depth depth := by
  cases stack with
  | nil => cases h
  | cons frame rest =>
    rw [List.length_cons] at hdepth
    cases frame with
    | array items =>
      cases token with
      | comma => cases h; exact hdepth
      | closing c =>
        cases c with
        | array => cases h; exact Nat.le_sub_of_add_le hdepth
        | object => cases h
      | opening | colon | text | scalar | longNumber | brokenText | stray => cases h
    | object members key =>
      cases token with
      | comma => cases h; exact hdepth
      | closing c =>
        cases c with
        | array => cases h
        | object => cases h; exact Nat.le_sub_of_add_le hdepth
      | opening | colon | text | scalar | longNumber | brokenText | stray => cases h

/-- No more containers are open than brackets, whatever token comes. -/
theorem depth_step (hdepth : state.depth stack ≤ depth)
    (h : state.step stack position token = .ok (state', stack')) :
    state'.depth stack' ≤ token.depth depth := by
  cases state with
  | value => exact depth_valueStep hdepth h
  | firstItem =>
    by_cases hclosing : token = .closing .array
    · subst hclosing
      cases h
      exact Nat.le_sub_of_add_le hdepth
    · have hopened : (Frame.array [] :: stack).length ≤ depth := hdepth
      rw [State.starts_firstItem stack position token hclosing] at h
      exact depth_valueStep hopened h
  | firstKey =>
    by_cases hclosing : token = .closing .object
    · subst hclosing
      cases h
      exact Nat.le_sub_of_add_le hdepth
    · rw [step_firstKey hclosing] at h
      exact depth_keyStep hdepth h
  | key members => exact depth_keyStep hdepth h
  | colon members name =>
    cases token with
    | colon => cases h; exact hdepth
    | opening | closing | comma | text | scalar | longNumber | brokenText | stray => cases h
  | after v => exact depth_afterStep hdepth h

theorem step_ne_tooDeep (hdepth : state.depth stack < maxDepth) (position : Nat) (token : Token)
    (c : Container) : state.step stack position token ≠ .error (.tooDeep c) := by
  have hvalue {stack : List Frame} (hstack : stack.length < maxDepth) (token : Token) :
      State.step.valueStep stack position token ≠ .error (.tooDeep c) := by
    intro h
    cases token with
    | opening c =>
      unfold State.step.valueStep at h
      dsimp only at h
      rw [if_neg (Nat.not_le.mpr hstack)] at h
      cases c <;> cases h
    | text | scalar | closing | comma | colon | longNumber | brokenText | stray => cases h
  have hkey (members : List (Text × Json)) (token : Token) :
      State.step.keyStep stack position members token ≠ .error (.tooDeep c) := by
    cases token <;> rintro ⟨⟩
  cases state with
  | value => exact hvalue hdepth token
  | firstItem =>
    by_cases hclosing : token = .closing .array
    · subst hclosing
      rintro ⟨⟩
    · have hopened : (Frame.array [] :: stack).length < maxDepth := hdepth
      rw [State.starts_firstItem stack position token hclosing]
      exact hvalue hopened token
  | firstKey =>
    by_cases hclosing : token = .closing .object
    · subst hclosing
      rintro ⟨⟩
    · rw [step_firstKey hclosing]
      exact hkey [] token
  | key members => exact hkey members token
  | colon members name => cases token <;> rintro ⟨⟩
  | after v =>
    cases stack with
    | nil => rintro ⟨⟩
    | cons frame rest =>
      cases frame <;> cases token with
      | closing c => cases c <;> rintro ⟨⟩
      | _ => rintro ⟨⟩

/-! ## All tokens -/

theorem ofTokens_ne_tooDeep {length : Nat} {tokens : List (Nat × Token)}
    (hdepth : state.depth stack ≤ depth) (hnesting : nestingFrom depth tokens < maxDepth)
    (c : Container) : ofTokens length state stack tokens ≠ .error (.tooDeep c) := by
  induction tokens generalizing state stack depth with
  | nil =>
    rw [ofTokens]
    cases state with
    | after v => rw [State.finish]; split <;> rintro ⟨⟩
    | value | firstItem | firstKey | key | colon => rintro ⟨⟩
  | cons found rest ih =>
    obtain ⟨position, token⟩ := found
    rw [nestingFrom, Nat.max_lt] at hnesting
    rw [ofTokens]
    split
    · next fault hfault =>
      rintro ⟨⟩
      exact step_ne_tooDeep (Nat.lt_of_le_of_lt hdepth hnesting.1) position token c hfault
    · next hstep => exact ih (depth_step hdepth hstep) hnesting.2

/-- **A text that nests within the limit is not refused for its nesting.** -/
theorem read_of_nesting_lt {t : Text} (h : nesting t < maxDepth) (c : Container) :
    read t ≠ .error (.tooDeep c) := by
  rw [read]
  split
  · rintro ⟨⟩
  · exact ofTokens_ne_tooDeep (Nat.zero_le _) h c

example : nesting "[[1], [[2]]" = 3 := by decide

end RouteCatalog.Json
