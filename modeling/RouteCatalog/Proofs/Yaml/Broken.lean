import RouteCatalog.Proofs.Number.Numeral
import RouteCatalog.Yaml.Token.All

/-!
# Where a text cannot be cut

Cutting a text into tokens ends with a broken one where it cannot go on. The text is malformed
there, except in two cases: an escape has a number that no character has, or a version has more
digits than numerals may have (`Token.isWordFault_of_mem_all`).
-/

namespace RouteCatalog.Yaml.Token

variable {α β : Type} {Q : α → Prop} {R : β → Prop}

/-- What a word of a text can have for a fault. -/
inductive IsWordFault : Fault → Prop
  | malformed : IsWordFault .malformed
  /-- An escape has a number that no character has. -/
  | noCharacter {n : Nat} (h : 0x110000 ≤ n) : IsWordFault (.noCharacter n)
  /-- A version has too many digits. -/
  | version {n : Nat} (h : Numeral.maxDigits < n) : IsWordFault (.integer (.tooManyDigits n))

/-! ## Outcomes -/

/-- An outcome is a value with a property, or the fault of a word. -/
def Cuts (Q : α → Prop) : Except Fault α → Prop
  | .ok a => Q a
  | .error fault => IsWordFault fault

namespace Cuts

theorem bind {x : Except Fault α} {f : α → Except Fault β} (h : Cuts Q x)
    (hf : ∀ a, Q a → Cuts R (f a)) : Cuts R (x >>= f) := by
  cases x with
  | ok a => exact hf a h
  | error fault => exact h

theorem map {x : Except Fault α} {f : α → β} (h : Cuts Q x) (hf : ∀ a, Q a → R (f a)) :
    Cuts R (x.map f) := by
  cases x with
  | ok a => exact hf a h
  | error fault => exact h

theorem ite {p : Prop} [Decidable p] {x y : Except Fault α} (hx : Cuts Q x) (hy : Cuts Q y) :
    Cuts Q (if p then x else y) := by
  split
  · exact hx
  · exact hy

theorem required {found : Option α} (h : ∀ a, found = some a → Q a) :
    Cuts Q (Mark.required found) := by
  cases found with
  | none => exact .malformed
  | some a => exact h a rfl

theorem required_map {found : Option α} {f : α → β} (h : ∀ a, R (f a)) :
    Cuts R (Mark.required (found.map f)) := by
  cases found with
  | none => exact .malformed
  | some a => exact h a

end Cuts

/-! ## Words -/

/-- A token where the text could not be cut further. -/
def isBroken : Token → Bool
  | .broken _ => true
  | _ => false

theorem cuts_versionNumber (t : Text) : Cuts (fun _ ↦ True) (Mark.versionNumber t) := by
  unfold Mark.versionNumber
  dsimp only
  split
  · exact .malformed
  · next hnonempty =>
    have hdigits : ∀ c ∈ t.takeWhile CodePoint.isAsciiDigit, c.isAsciiDigit = true :=
      fun c hc ↦ List.all_eq_true.mp List.all_takeWhile c hc
    have hne : t.takeWhile CodePoint.isAsciiDigit ≠ [] := fun h ↦
      hnonempty (List.isEmpty_iff.mpr h)
    split
    · trivial
    · next fault hfault =>
      rw [Numeral.read, Numeral.readIn, Numeral.unpad_eq hdigits, Numeral.splitSign_eq hdigits]
        at hfault
      dsimp only at hfault
      rw [Numeral.withoutMark_ten, Numeral.digits?_eq hne hdigits] at hfault
      dsimp only at hfault
      split at hfault
      · next hmany =>
        cases hfault
        rw [Bool.and_eq_true, decide_eq_true_eq, decide_eq_true_eq] at hmany
        exact .version hmany.2
      · cases hfault

theorem cuts_directive (t : Text) :
    Cuts (fun found ↦ found.1.isBroken = false) (Mark.directive t) := by
  have hrequired {γ : Type} (found : Option γ) : Cuts (fun _ ↦ True) (Mark.required found) :=
    Cuts.required fun _ _ ↦ trivial
  unfold Mark.directive
  dsimp only
  refine .ite .malformed (.ite ?_ (.ite ?_ ?_))
  · refine (cuts_versionNumber _).bind fun _ _ ↦ ?_
    refine (hrequired _).bind fun _ _ ↦ ?_
    refine (cuts_versionNumber _).bind fun _ _ ↦ ?_
    exact .ite ((hrequired _).bind fun _ _ ↦ rfl) .malformed
  · refine (hrequired _).bind fun _ _ ↦ ?_
    refine (hrequired _).bind fun _ _ ↦ ?_
    refine (hrequired _).bind fun _ _ ↦ ?_
    exact .ite ((hrequired _).bind fun _ _ ↦ rfl) .malformed
  · exact (hrequired _).bind fun _ _ ↦ rfl

theorem cuts_step (double : Bool) (c : CodePoint) (t : Text) (mode : Quoted.Mode) :
    Cuts (fun _ ↦ True) (Quoted.step double c t mode) := by
  have hok (found : Text × Quoted.Effect) : Cuts (fun _ ↦ True) (.ok found) := trivial
  unfold Quoted.step
  split
  · exact hok _
  · exact .ite (hok _) (.ite (hok _) (hok _))
  · exact .ite .malformed (.ite (hok _) (.ite (hok _) (hok _)))
  · refine .ite (hok _) ?_
    split
    · exact hok _
    · exact hok _
    · exact .malformed
  · split
    · exact .malformed
    · refine .ite (hok _) ?_
      split
      · exact hok _
      · next hlarge => exact .noCharacter (Nat.le_of_not_lt hlarge)
  · exact hok _

theorem cuts_readFrom (double : Bool) (mode : Quoted.Mode) (t : Text) :
    Cuts (fun _ ↦ True) (Quoted.readFrom double mode t) := by
  fun_induction Quoted.readFrom double mode t with
  | case1 => trivial
  | case2 => exact .malformed
  | case3 mode c t fault hstep =>
    have h := cuts_step double c t mode
    rw [hstep] at h
    exact h
  | case4 => trivial
  | case5 => trivial
  | case6 mode c t before added next hstep ih => exact ih.map fun _ _ ↦ trivial

theorem cuts_block (folded : Bool) (least : Nat) (t : Text) :
    Cuts (fun _ ↦ True) (Block.read folded least t) := by
  unfold Block.read
  split
  · exact .malformed
  · trivial

theorem isBroken_tag {t rest : Text} {found : Token} (h : Mark.tag? t = some (found, rest)) :
    found.isBroken = false := by
  have hguard {p : Prop} [Decidable p] {x y : Token × Text} (hx : x.1.isBroken = false)
      (h : (do guard p; return x) = some y) : y.1.isBroken = false := by
    obtain ⟨-, -, h⟩ := Option.bind_eq_some_iff.mp h
    cases h
    exact hx
  rw [Mark.tag?] at h
  cases hopen : Text.dropLiteral? "<" t with
  | some t =>
    rw [hopen] at h
    obtain ⟨_, -, h⟩ := Option.bind_eq_some_iff.mp h
    obtain ⟨_, -, h⟩ := Option.bind_eq_some_iff.mp h
    exact hguard rfl h
  | none =>
    rw [hopen] at h
    dsimp only at h
    by_cases hend : endsWord t = true
    · rw [if_pos hend] at h
      exact hguard rfl h
    · rw [if_neg hend] at h
      -- With a handle or without, a name follows.
      have hname {short : Option (Text × Text)}
          (h : (short.bind fun start ↦ (Mark.tagName? start.2).bind fun name ↦ do
            guard (endsPart name.2)
            return ((.tag (some start.1) name.1, name.2) : Token × Text)) = some (found, rest)) :
          found.isBroken = false := by
        obtain ⟨_, -, h⟩ := Option.bind_eq_some_iff.mp h
        obtain ⟨_, -, h⟩ := Option.bind_eq_some_iff.mp h
        exact hguard rfl h
      by_cases hhandle : (t.takeWhile fun (c : CodePoint) ↦ !(c = ' ' || isBreak c)).contains
          (CodePoint.ofChar '!') = true
      · rw [if_pos hhandle] at h
        exact hname h
      · rw [if_neg hhandle] at h
        exact hname h

/-! ## The text so far -/

namespace State

variable {s : State}

/-- No token so far is broken. -/
def Unbroken (s : State) : Prop := ∀ t ∈ s.tokens, t.isBroken = false

theorem unbroken_start (t : Text) : (start t).Unbroken := List.forall_mem_nil _

theorem Unbroken.emit (h : s.Unbroken) {t : Token} (ht : t.isBroken = false) (rest : Text) :
    (s.emit t rest).Unbroken := List.forall_mem_cons.mpr ⟨ht, h⟩

theorem Unbroken.closeTo (h : s.Unbroken) (column : Nat) : (s.closeTo column).Unbroken := by
  unfold State.closeTo
  split
  · exact h
  · refine List.forall_mem_append.mpr ⟨fun t ht ↦ ?_, h⟩
    obtain ⟨c, -, rfl⟩ := List.mem_map.mp ht
    rfl

theorem Unbroken.closeAll (h : s.Unbroken) : s.closeAll.Unbroken := by
  unfold State.closeAll
  split
  · exact h
  · refine List.forall_mem_append.mpr ⟨fun t ht ↦ ?_, h⟩
    obtain ⟨c, -, rfl⟩ := List.mem_map.mp ht
    rfl

theorem forall_mem_insert {tokens : List Token} (h : ∀ t ∈ tokens, t.isBroken = false) {t : Token}
    (ht : t.isBroken = false) (n : Nat) :
    ∀ t' ∈ tokens.take n ++ t :: tokens.drop n, t'.isBroken = false :=
  List.forall_mem_append.mpr ⟨fun t' ht' ↦ h t' (List.mem_of_mem_take ht'),
    List.forall_mem_cons.mpr ⟨ht, fun t' ht' ↦ h t' (List.mem_of_mem_drop ht')⟩⟩

theorem Unbroken.openAt (h : s.Unbroken) {t : Token} (ht : t.isBroken = false)
    (column before : Nat) : (s.openAt column t before).Unbroken := by
  unfold State.openAt
  split
  · exact h
  · exact forall_mem_insert h ht _

/-! ## Steps -/

section

variable (h : s.Unbroken)
include h

theorem cuts_dropStale : Cuts Unbroken s.dropStale := by
  unfold dropStale
  dsimp only
  split
  · exact .malformed
  · exact h

theorem cuts_dropCandidate : Cuts Unbroken s.dropCandidate := by
  unfold dropCandidate
  split
  · exact .malformed
  · exact h

theorem cuts_addCandidate : Cuts Unbroken s.addCandidate := by
  unfold addCandidate
  split
  · exact (cuts_dropCandidate h).bind fun _ hs ↦ hs
  · exact h

theorem cuts_finish : Cuts Unbroken s.finish := by
  unfold finish
  split
  · exact .malformed
  · exact cuts_dropCandidate h.closeAll

theorem cuts_outside : Cuts Unbroken s.outside :=
  (cuts_dropCandidate h.closeAll).map fun _ hs ↦ hs

theorem cuts_open {t : Token} (ht : t.isBroken = false) : Cuts Unbroken (s.open? t) := by
  unfold open?
  split
  · exact h
  · split
    · exact h.openAt ht _ _
    · exact .malformed

theorem cuts_openBracket {t : Token} (ht : t.isBroken = false) (rest : Text) :
    Cuts Unbroken (s.openBracket t rest) :=
  (cuts_addCandidate h).map fun _ hs ↦ Unbroken.emit hs ht rest

theorem cuts_closeBracket {t : Token} (ht : t.isBroken = false) (rest : Text) :
    Cuts Unbroken (s.closeBracket t rest) := by
  refine (cuts_dropCandidate h).bind fun s hs ↦ ?_
  split
  · exact .malformed
  · exact Unbroken.emit hs ht rest

theorem cuts_comma (rest : Text) : Cuts Unbroken (s.comma rest) :=
  (cuts_dropCandidate h).map fun _ hs ↦ Unbroken.emit hs rfl rest

theorem cuts_item (rest : Text) : Cuts Unbroken (s.item rest) := by
  refine (cuts_open h rfl).bind fun s hs ↦ ?_
  exact (cuts_dropCandidate hs).bind fun s hs ↦ Unbroken.emit hs rfl rest

theorem cuts_key (rest : Text) : Cuts Unbroken (s.key rest) := by
  refine (cuts_open h rfl).bind fun s hs ↦ ?_
  exact (cuts_dropCandidate hs).bind fun s hs ↦ Unbroken.emit hs rfl rest

theorem cuts_value (rest : Text) : Cuts Unbroken (s.value rest) := by
  unfold value
  split
  · next c _ =>
    refine Unbroken.emit (Unbroken.openAt ?_ rfl _ _) rfl rest
    exact forall_mem_insert h rfl _
  · exact (cuts_open h rfl).bind fun s hs ↦ Unbroken.emit hs rfl rest

theorem cuts_word {found : Except Fault (Token × Text)}
    (hfound : Cuts (fun f ↦ f.1.isBroken = false) found) : Cuts Unbroken (s.word found) := by
  refine (cuts_addCandidate h).bind fun s hs ↦ ?_
  exact hfound.bind fun found ht ↦ Unbroken.emit hs ht found.2

theorem cuts_plain : Cuts Unbroken s.plain :=
  (cuts_addCandidate h).map fun s hs ↦
    Unbroken.emit hs rfl (Plain.read s.inBrackets s.least s.rest).rest

theorem cuts_block (folded : Bool) (t : Text) : Cuts Unbroken (s.block folded t) := by
  refine (cuts_dropCandidate h).bind fun s hs ↦ ?_
  exact (Token.cuts_block folded s.least t).bind fun found _ ↦ Unbroken.emit hs rfl found.2

theorem cuts_fetch (c : CodePoint) (t : Text) : Cuts Unbroken (s.fetch c t) := by
  have hmarked {mark : Token} (hmark : mark.isBroken = false) (rest : Text) :
      Cuts Unbroken (s.outside.map (·.emit mark rest)) :=
    (cuts_outside h).map fun _ hs ↦ Unbroken.emit hs hmark rest
  unfold fetch
  refine .ite ?_ ?_
  · refine (cuts_outside h).bind fun s hs ↦ ?_
    exact (cuts_directive t).bind fun found ht ↦ Unbroken.emit hs ht found.2
  refine .ite (hmarked rfl _) (.ite (hmarked rfl _) ?_)
  refine .ite (cuts_openBracket h rfl t) (.ite (cuts_openBracket h rfl t) ?_)
  refine .ite (cuts_closeBracket h rfl t) (.ite (cuts_closeBracket h rfl t) ?_)
  refine .ite (cuts_comma h t) (.ite (cuts_item h t) ?_)
  refine .ite (cuts_key h t) (.ite (cuts_value h t) ?_)
  refine .ite (cuts_word h (.required_map fun _ ↦ rfl)) ?_
  refine .ite (cuts_word h (.required_map fun _ ↦ rfl)) ?_
  refine .ite (cuts_word h (Cuts.required fun _ ↦ isBroken_tag)) ?_
  refine .ite (cuts_block h false t) (.ite (cuts_block h true t) ?_)
  refine .ite (cuts_word h ((cuts_readFrom false .value t).map fun _ _ ↦ rfl)) ?_
  refine .ite (cuts_word h ((cuts_readFrom true .value t).map fun _ _ ↦ rfl)) ?_
  exact .ite (cuts_plain h) .malformed

end

theorem isWordFault_of_mem_run (h : s.Unbroken) {fuel : Nat} {fault : Fault}
    (hmem : .broken fault ∈ run fuel s) : IsWordFault fault := by
  -- The tokens so far are kept, and a fault is put behind them.
  have hkept {s : State} (hs : s.Unbroken) : .broken fault ∉ s.tokens.reverse := fun hmem ↦
    Bool.noConfusion (hs _ (List.mem_reverse.mp hmem))
  have hstop {s : State} (hs : s.Unbroken) {n : Nat} {last : Fault} (hlast : IsWordFault last)
      (hmem : .broken fault ∈ s.tokens.reverse.take n ++ [.broken last]) : IsWordFault fault := by
    rcases List.mem_append.mp hmem with hmem | hmem
    · exact absurd (List.mem_of_mem_take hmem) (hkept hs)
    · cases List.mem_singleton.mp hmem
      exact hlast
  induction fuel generalizing s with
  | zero => exact absurd hmem (hkept h)
  | succ fuel ih =>
    rw [run] at hmem
    have hstale := cuts_dropStale h
    split at hmem
    · next last hlast =>
      rw [hlast] at hstale
      exact hstop h hstale hmem
    · next s' hs' =>
      rw [hs'] at hstale
      have hword : s'.toWord.Unbroken := hstale
      have hnext := cuts_dropStale hword
      dsimp only at hmem
      split at hmem
      · next last hlast =>
        rw [hlast] at hnext
        exact hstop hstale hnext hmem
      · next s'' hs'' =>
        rw [hs''] at hnext
        split at hmem
        · have hfinish := cuts_finish hnext
          split at hmem
          · next last hlast =>
            rw [hlast] at hfinish
            exact hstop hstale hfinish hmem
          · next s₀ hs₀ =>
            rw [hs₀] at hfinish
            exact absurd hmem (hkept hfinish)
        · next c t _ =>
          have hfetch := cuts_fetch (hnext.closeTo s''.place.column) c t
          split at hmem
          · next last hlast =>
            rw [hlast] at hfetch
            exact hstop hstale hfetch hmem
          · next s₀ hs₀ =>
            rw [hs₀] at hfetch
            exact ih hfetch hmem

end State

/-- **Where a text cannot be cut, it is malformed, or a number in it is too large.** -/
theorem isWordFault_of_mem_all {t : Text} {fault : Fault} (h : .broken fault ∈ all t) :
    IsWordFault fault := by
  rw [all] at h
  split at h
  · exact State.isWordFault_of_mem_run (State.unbroken_start t) h
  · cases List.mem_singleton.mp h
    exact .malformed

end RouteCatalog.Yaml.Token
