import RouteCatalog.Json.Reader
import RouteCatalog.Proofs.Json.Lexeme

/-!
# The layout of the persisted file is read back

The reader goes from state to state while the tokens of a written value pass by. A value that is
written at some level takes it from expecting a value to having that very value, with the same
containers open (`takes_indented`); the induction is on the value, and the containers around it
are those on the stack, so the nesting limit is that of the value on top of the stack's height.
-/

namespace RouteCatalog.Json

open Text (EndsValue)

/-! ## Passing over a text -/

/-- Over `text`, with `rest` behind it, the reader goes from one state and stack to another. -/
def Takes (length : Nat) (rest : Text) (before : State × List Frame) (text : Text)
    (after : State × List Frame) : Prop :=
  ∀ position, ∃ next,
    ofTokens length before.1 before.2 (Token.allFrom 0 position (text ++ rest)) =
      ofTokens length after.1 after.2 (Token.allFrom 0 next rest)

namespace Takes

variable {length : Nat} {rest s t : Text} {a b c : State × List Frame}

theorem append (hs : Takes length (t ++ rest) a s b) (ht : Takes length rest b t c) :
    Takes length rest a (s ++ t) c := by
  intro position
  obtain ⟨middle, hmiddle⟩ := hs position
  obtain ⟨next, hnext⟩ := ht middle
  exact ⟨next, by rw [List.append_assoc, hmiddle, hnext]⟩

theorem token {token : Token} (hfront : Token.IsFront t token rest)
    (hstep : ∀ position, a.1.step a.2 position token = .ok b)
    (hlast : token.isLast = false) : Takes length rest a t b := by
  intro position
  refine ⟨position + t.length, ?_⟩
  rw [hfront.allFrom_append hlast, ofTokens, hstep]

theorem newLine (level : Nat) : Takes length rest a (newLine level) a := by
  intro position
  refine ⟨position + 1 + 2 * level, ?_⟩
  rw [Json.newLine, List.cons_append, Token.allFrom_blank rfl, Token.allFrom_replicate_blank]

theorem blank : Takes length rest a " " a :=
  fun position ↦ ⟨position + 1, rfl⟩

end Takes

/-! ## Values -/

/-- In the state a token is taken as the first one of a value, unless it closes an array. -/
def State.Starts (state : State) (opened stack : List Frame) : Prop :=
  ∀ position token, token ≠ .closing .array →
    state.step opened position token = State.step.valueStep stack position token

theorem State.starts_value (stack : List Frame) : State.value.Starts stack stack :=
  fun _ _ _ ↦ rfl

theorem State.starts_firstItem (stack : List Frame) :
    State.firstItem.Starts stack (.array [] :: stack) := by
  intro position token htoken
  cases token with
  | closing c =>
    cases c with
    | array => exact absurd rfl htoken
    | object => rfl
  | _ => rfl

/-- The reader takes the written value wherever one may start and the nesting is not too deep. -/
def Readable (v : Json) : Prop :=
  ∀ ⦃length level : Nat⦄ ⦃rest : Text⦄ ⦃state : State⦄ ⦃opened stack : List Frame⦄,
    EndsValue rest → state.Starts opened stack → stack.length + v.depth ≤ maxDepth →
      Takes length rest (state, opened) (indented level v) (.after v, stack)

theorem indented_of_isScalar {v : Json} (hv : v.isScalar = true) (level : Nat) :
    indented level v = scalarText v := by
  cases v with
  | arr | obj => cases hv
  | _ => rfl

theorem readable_of_isScalar {v : Json} (hv : v.isScalar = true) (hunsplit : v.Unsplit)
    (hshort : v.Short) : v.Readable := by
  intro length level rest state opened stack hrest hstart _
  rw [indented_of_isScalar hv]
  refine .token (Token.isFront_scalarText hv hunsplit hrest) (fun position ↦ ?_)
    (Token.isLast_ofScalar hshort)
  cases v with
  | arr | obj => cases hv
  | int i =>
    rw [Token.ofScalar, Token.ofInt, if_neg (Nat.not_lt.mpr hshort)]
    exact hstart position _ (by simp)
  | _ => exact hstart position _ (by simp [Token.ofScalar])

/-- An opening bracket is taken unless the nesting is too deep. -/
theorem State.Starts.opening {state : State} {opened stack : List Frame}
    (hstart : state.Starts opened stack) (hdepth : stack.length < maxDepth) (c : Container)
    (position : Nat) :
    state.step opened position (.opening c) =
      .ok (match c with | .array => .firstItem | .object => .firstKey, stack) := by
  rw [hstart position _ (by simp)]
  cases c with
  | array => exact if_neg (Nat.not_le.mpr hdepth)
  | object => exact if_neg (Nat.not_le.mpr hdepth)

/-! ## Arrays -/

theorem endsValue_indentedItems (level : Nat) (items : List Json) (rest : Text) :
    EndsValue (indentedItems level items ++ rest) := by
  cases items with
  | nil => exact .cons (by decide) _
  | cons v items => exact .cons (by decide) _

theorem takes_indentedItems {length level : Nat} {rest : Text} {done items : List Json} {v : Json}
    {stack : List Frame} (hitems : ∀ w ∈ items, w.Readable)
    (hdepth : ∀ w ∈ items, stack.length + 1 + w.depth ≤ maxDepth) :
    Takes length rest (.after v, .array done :: stack) (indentedItems level items)
      (.after (.arr (done.reverse ++ v :: items)), stack) := by
  -- The items before are on the stack, last one first; the induction is on those to come.
  induction items generalizing done v with
  | nil =>
    refine .append (.newLine level) (.token Token.isFront_closing_array (fun _ ↦ ?_) rfl)
    simp [State.step]
  | cons w items ih =>
    have hcomma : Takes length ((newLine (level + 1) ++ indented (level + 1) w ++
        indentedItems level items) ++ rest) (.after v, .array done :: stack) ","
          (.value, .array (v :: done) :: stack) := .token Token.isFront_comma (fun _ ↦ rfl) rfl
    have hw : Takes length (indentedItems level items ++ rest)
        (.value, .array (v :: done) :: stack) (indented (level + 1) w)
          (.after w, .array (v :: done) :: stack) :=
      hitems w List.mem_cons_self (endsValue_indentedItems level items rest)
        (State.starts_value _) (hdepth w List.mem_cons_self)
    have hmore : Takes length rest (.after w, .array (v :: done) :: stack)
        (indentedItems level items) (.after (.arr ((v :: done).reverse ++ w :: items)), stack) :=
      ih (fun u hu ↦ hitems u (List.mem_cons_of_mem w hu))
        (fun u hu ↦ hdepth u (List.mem_cons_of_mem w hu))
    have happ : (v :: done).reverse ++ w :: items = done.reverse ++ v :: w :: items := by simp
    rw [happ] at hmore
    exact hcomma.append ((Takes.newLine (level + 1)).append hw |>.append hmore)

theorem readable_arr {items : List Json} (hitems : ∀ v ∈ items, v.Readable) :
    (arr items).Readable := by
  intro length level rest state opened stack hrest hstart hdepth
  rw [depth] at hdepth
  have hopen := hstart.opening (by omega) .array
  cases items with
  | nil =>
    exact Takes.append (.token Token.isFront_opening_array hopen rfl)
      (.token Token.isFront_closing_array (fun _ ↦ rfl) rfl)
  | cons v items =>
    -- Inside there is one more container open, and one level less to come.
    have hdepth' : ∀ w ∈ v :: items, stack.length + 1 + w.depth ≤ maxDepth := by
      intro w hw
      have := depthItems_le_iff.mp le_rfl w hw
      omega
    have hv : Takes length (indentedItems level items ++ rest) (.firstItem, stack)
        (indented (level + 1) v) (.after v, .array [] :: stack) :=
      hitems v List.mem_cons_self (endsValue_indentedItems level items rest)
        (State.starts_firstItem stack) (hdepth' v List.mem_cons_self)
    have hmore : Takes length rest (.after v, .array [] :: stack) (indentedItems level items)
        (.after (.arr (v :: items)), stack) :=
      takes_indentedItems (fun w hw ↦ hitems w (List.mem_cons_of_mem v hw))
        (fun w hw ↦ hdepth' w (List.mem_cons_of_mem v hw))
    exact (Takes.token Token.isFront_opening_array hopen rfl).append
      ((Takes.newLine (level + 1)).append hv |>.append hmore)

/-! ## Objects -/

theorem endsValue_indentedMembers (level : Nat) (members : List (Text × Json)) (rest : Text) :
    EndsValue (indentedMembers level members ++ rest) := by
  cases members with
  | nil => exact .cons (by decide) _
  | cons m members => exact .cons (by decide) _

/-- In the state a string is taken as the key of a further member. -/
def State.StartsKey (state : State) (members : List (Text × Json)) : Prop :=
  ∀ stack position key, state.step stack position (.text key) = .ok (.colon members key, stack)

/-- A member: its key, a colon and its value. -/
theorem takes_member {length level : Nat} {rest key : Text} {state : State}
    {members : List (Text × Json)} {v : Json} {stack : List Frame} (hkey : Text.Unsplit key)
    (hv : v.Readable) (hdepth : stack.length + 1 + v.depth ≤ maxDepth) (hrest : EndsValue rest)
    (hstart : state.StartsKey members) :
    Takes length rest (state, stack) (quote key ++ ": " ++ indented level v)
      (.after v, .object members key :: stack) := by
  have hquote (rest : Text) : Takes length rest (state, stack) (quote key)
      (.colon members key, stack) :=
    .token (Token.isFront_quote hkey) (fun position ↦ hstart stack position key) rfl
  have hcolon (rest : Text) : Takes length rest (.colon members key, stack) ": "
      (.value, .object members key :: stack) :=
    Takes.append (.token Token.isFront_colon (fun _ ↦ rfl) rfl) .blank
  exact ((hquote _).append (hcolon _)).append (hv hrest (State.starts_value _) hdepth)

private theorem takes_line {length level : Nat} {rest key : Text} {a b c : State × List Frame}
    {members : List (Text × Json)} {v : Json}
    (hmember : Takes length (indentedMembers level members ++ rest) a
      (quote key ++ ": " ++ indented (level + 1) v) b)
    (hmore : Takes length rest b (indentedMembers level members) c) :
    Takes length rest a (newLine (level + 1) ++ quote key ++ ": " ++ indented (level + 1) v ++
      indentedMembers level members) c := by
  have h := ((Takes.newLine (level + 1)).append hmember).append hmore
  simpa only [List.append_assoc] using h

theorem takes_indentedMembers {length level : Nat} {rest key : Text}
    {done members : List (Text × Json)} {v : Json} {stack : List Frame}
    (hmembers : ∀ m ∈ members, Text.Unsplit m.1 ∧ m.2.Readable)
    (hdepth : ∀ m ∈ members, stack.length + 1 + m.2.depth ≤ maxDepth) :
    Takes length rest (.after v, .object done key :: stack) (indentedMembers level members)
      (.after (ofMembers (done.reverse ++ (key, v) :: members)), stack) := by
  induction members generalizing done key v with
  | nil =>
    refine .append (.newLine level) (.token Token.isFront_closing_object (fun _ ↦ ?_) rfl)
    simp [State.step]
  | cons m members ih =>
    obtain ⟨key', w⟩ := m
    have hfirst := hmembers (key', w) List.mem_cons_self
    -- After a comma only a key may come, so the member is taken from the state `key`.
    have hcomma : Takes length ((newLine (level + 1) ++ quote key' ++ ": " ++
        indented (level + 1) w ++ indentedMembers level members) ++ rest)
          (.after v, .object done key :: stack) ","
            (.key ((key, v) :: done), stack) := .token Token.isFront_comma (fun _ ↦ rfl) rfl
    have hw : Takes length (indentedMembers level members ++ rest)
        (.key ((key, v) :: done), stack) (quote key' ++ ": " ++ indented (level + 1) w)
          (.after w, .object ((key, v) :: done) key' :: stack) :=
      takes_member hfirst.1 hfirst.2 (hdepth (key', w) List.mem_cons_self)
        (endsValue_indentedMembers level members rest) fun _ _ _ ↦ rfl
    have hmore : Takes length rest (.after w, .object ((key, v) :: done) key' :: stack)
        (indentedMembers level members)
          (.after (ofMembers (((key, v) :: done).reverse ++ (key', w) :: members)), stack) :=
      ih (fun u hu ↦ hmembers u (List.mem_cons_of_mem _ hu))
        (fun u hu ↦ hdepth u (List.mem_cons_of_mem _ hu))
    have happ : ((key, v) :: done).reverse ++ (key', w) :: members =
        done.reverse ++ (key, v) :: (key', w) :: members := by simp
    rw [happ] at hmore
    exact hcomma.append (takes_line hw hmore)

theorem readable_obj {members : List (Text × Json)}
    (hkeys : (members.map Prod.fst).Nodup)
    (hmembers : ∀ m ∈ members, Text.Unsplit m.1 ∧ m.2.Readable) : (obj members).Readable := by
  intro length level rest state opened stack hrest hstart hdepth
  rw [depth] at hdepth
  have hopen := hstart.opening (by omega) .object
  cases members with
  | nil =>
    exact Takes.append (.token Token.isFront_opening_object hopen rfl)
      (.token Token.isFront_closing_object (fun _ ↦ rfl) rfl)
  | cons m members =>
    obtain ⟨key, v⟩ := m
    have hdepth' : ∀ m ∈ (key, v) :: members, stack.length + 1 + m.2.depth ≤ maxDepth := by
      intro m hm
      have := depthMembers_le_iff.mp le_rfl m hm
      omega
    have hfirst := hmembers (key, v) List.mem_cons_self
    have hv : Takes length (indentedMembers level members ++ rest) (.firstKey, stack)
        (quote key ++ ": " ++ indented (level + 1) v) (.after v, .object [] key :: stack) :=
      takes_member hfirst.1 hfirst.2 (hdepth' (key, v) List.mem_cons_self)
        (endsValue_indentedMembers level members rest) fun _ _ _ ↦ rfl
    have hmore : Takes length rest (.after v, .object [] key :: stack)
        (indentedMembers level members) (.after (ofMembers ((key, v) :: members)), stack) :=
      takes_indentedMembers (fun m hm ↦ hmembers m (List.mem_cons_of_mem _ hm))
        (fun m hm ↦ hdepth' m (List.mem_cons_of_mem _ hm))
    rw [ofMembers_of_nodup hkeys] at hmore
    exact (Takes.token Token.isFront_opening_object hopen rfl).append (takes_line hv hmore)

/-! ## Texts -/

theorem readable {v : Json} (hunsplit : v.Unsplit) (hdistinct : v.Distinct) (hshort : v.Short) :
    v.Readable := by
  induction v using Json.induct with
  | scalar v hv => exact readable_of_isScalar hv hunsplit hshort
  | arr items ih =>
    rw [unsplit_arr] at hunsplit
    rw [distinct_arr] at hdistinct
    rw [short_arr] at hshort
    exact readable_arr fun v hv ↦ ih v hv (hunsplit v hv) (hdistinct v hv) (hshort v hv)
  | obj members ih =>
    rw [unsplit_obj] at hunsplit
    rw [distinct_obj] at hdistinct
    rw [short_obj] at hshort
    exact readable_obj hdistinct.1 fun m hm ↦
      ⟨(hunsplit m hm).1, ih m hm (hunsplit m hm).2 (hdistinct.2 m hm) (hshort m hm)⟩

private theorem ofTokens_byteOrderMark (length : Nat) (t : Text) :
    ofTokens length .value [] (Token.all (.ofNat 0xFEFF :: t)) =
      .error (.malformed .expectingValue 0) := rfl

/-- **The layout of the persisted file is read back**, order of members included. -/
theorem read_indented {v : Json} (hunsplit : v.Unsplit) (hdistinct : v.Distinct)
    (hshort : v.Short) (hdepth : v.depth ≤ maxDepth) : read (indented 0 v) = .ok v := by
  have htakes : Takes (indented 0 v).length [] (.value, []) (indented 0 v) (.after v, []) :=
    readable hunsplit hdistinct hshort .nil (State.starts_value []) (by simpa using hdepth)
  obtain ⟨next, hnext⟩ := htakes 0
  rw [List.append_nil] at hnext
  have hmark : (indented 0 v).head? ≠ some (.ofNat 0xFEFF) := by
    intro hhead
    obtain ⟨t, ht⟩ := List.head?_eq_some_iff.mp hhead
    rw [ht] at hnext
    cases (ofTokens_byteOrderMark _ t).symm.trans hnext
  rw [read, if_neg hmark, Token.all, hnext]
  rfl

end RouteCatalog.Json
