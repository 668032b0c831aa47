import RouteCatalog.Proofs.Fallible
import RouteCatalog.Proofs.Yaml.Broken
import RouteCatalog.Proofs.Yaml.Refused
import RouteCatalog.Yaml.Reader

/-!
# Where the fault of a document lies

Reading nodes goes through the tokens from left to right. It fails because the document is
malformed or nests too deeply, or with the fault of a token (`Node.document_eq_error`). So in a
document with any other fault there is a word that has it, or a node that refuses its text with it
(`Fault.Lies`, `lies_of_read`).
-/

namespace RouteCatalog.Yaml

namespace Node

namespace Reading

variable {α β : Type}

/-- The fault is that of a document's shape, or one of the tokens has it. -/
def IsShapeOr (tokens : List Token) (fault : Fault) : Prop :=
  fault = .malformed ∨ fault = .tooDeep ∨ .broken fault ∈ tokens

theorem IsShapeOr.mono {tokens rest : List Token} {fault : Fault} (h : IsShapeOr rest fault)
    (hrest : rest ⊆ tokens) : IsShapeOr tokens fault :=
  h.imp_right (Or.imp_right fun hmem ↦ hrest hmem)

/-- What reading leaves is the end of the tokens, and it fails because of the document's shape or
with the fault of a token. -/
structure Advances (x : Reading α) : Prop where
  /-- What is left. -/
  isSuffix : ∀ {source a after}, x.run source = .ok (a, after) → after.tokens <:+ source.tokens
  /-- Why it fails. -/
  fault : ∀ {source fault}, x.run source = .error fault → IsShapeOr source.tokens fault

/-! ## Steps -/

theorem advances_pure (a : α) : Advances (pure a : Reading α) where
  isSuffix h := by
    cases h
    exact List.suffix_rfl
  fault h := by cases h

theorem advances_fail : Advances (fail : Reading α) where
  isSuffix h := by cases h
  fault h := by
    cases h
    exact .inl rfl

theorem advances_tooDeep : Advances (throw .tooDeep : Reading α) where
  isSuffix h := by cases h
  fault h := by
    cases h
    exact .inr (.inl rfl)

theorem advances_get : Advances (get : Reading Source) where
  isSuffix h := by
    cases h
    exact List.suffix_rfl
  fault h := by cases h

theorem advances_modify {f : Source → Source} (h : ∀ source, (f source).tokens <:+ source.tokens) :
    Advances (modify f : Reading Unit) where
  isSuffix hrun := by
    cases hrun
    exact h _
  fault hrun := by cases hrun

theorem Advances.bind {x : Reading α} {f : α → Reading β} (hx : Advances x)
    (hf : ∀ a, Advances (f a)) : Advances (x >>= f) where
  isSuffix {source b after} h := by
    rw [StateT.run_bind] at h
    cases hrun : x.run source with
    | error fault =>
      rw [hrun] at h
      cases h
    | ok found =>
      rw [hrun] at h
      exact ((hf found.1).isSuffix h).trans (hx.isSuffix hrun)
  fault {source fault} h := by
    rw [StateT.run_bind] at h
    cases hrun : x.run source with
    | error fault' =>
      rw [hrun] at h
      cases h
      exact hx.fault hrun
    | ok found =>
      rw [hrun] at h
      exact ((hf found.1).fault h).mono (hx.isSuffix hrun).subset

theorem Advances.ite {p : Prop} [Decidable p] {x y : Reading α} (hx : Advances x)
    (hy : Advances y) : Advances (if p then x else y) := by
  split
  · exact hx
  · exact hy

theorem run_peek (source : Source) : peek.run source =
    match source.tokens with
    | [] => .ok (none, source)
    | .broken fault :: _ => .error fault
    | t :: _ => .ok (some t, source) := by
  obtain ⟨tokens, handles, named⟩ := source
  cases tokens with
  | nil => rfl
  | cons t rest => cases t <;> rfl

theorem advances_peek : Advances peek where
  isSuffix h := by
    rw [run_peek] at h
    split at h
    · cases h
      exact List.suffix_rfl
    · cases h
    · cases h
      exact List.suffix_rfl
  fault h := by
    rw [run_peek] at h
    split at h
    · cases h
    · next htokens =>
      cases h
      rw [htokens]
      exact .inr (.inr List.mem_cons_self)
    · cases h

theorem advances_skip : Advances skip := advances_modify fun source ↦ List.tail_suffix source.tokens

theorem advances_isNext (among : List Token) : Advances (isNext among) :=
  advances_peek.bind fun _ ↦ advances_pure _

theorem advances_skipIf (t : Token) : Advances (skipIf t) :=
  (advances_isNext [t]).bind fun _ ↦
    .ite (advances_skip.bind fun _ ↦ advances_pure true) (advances_pure false)

theorem advances_anchor : Advances anchor? := by
  refine advances_peek.bind fun next ↦ ?_
  split
  · exact advances_skip.bind fun _ ↦ advances_pure _
  · exact advances_pure _

theorem advances_tag : Advances tag? := by
  refine advances_peek.bind fun next ↦ ?_
  split
  · exact advances_skip.bind fun _ ↦ advances_pure _
  · exact advances_pure _

theorem advances_tagName (written : Option Text × Text) : Advances (tagName written) := by
  unfold tagName
  split
  · exact advances_pure _
  · refine advances_get.bind fun source ↦ ?_
    split
    · exact advances_pure _
    · exact advances_fail

theorem advances_properties : Advances properties := by
  refine advances_anchor.bind fun before ↦ advances_tag.bind fun tag ↦ ?_
  have hfound (name : Option Text) : Advances (do return (name, ← tag.mapM tagName)) := by
    refine Advances.bind ?_ fun _ ↦ advances_pure _
    cases tag with
    | none => exact advances_pure none
    | some written => exact (advances_tagName written).bind fun _ ↦ advances_pure _
  exact .ite (advances_anchor.bind hfound) ((advances_pure before).bind hfound)

theorem advances_define (name : Option Text) (n : Node) : Advances (define name n) := by
  cases name with
  | none => exact advances_pure n
  | some name =>
    refine Advances.bind ?_ fun _ ↦ advances_pure n
    exact advances_modify fun _ ↦ List.suffix_rfl

theorem advances_refer (name : Text) : Advances (refer name) := by
  refine advances_get.bind fun source ↦ ?_
  split
  · exact advances_pure _
  · exact advances_fail

theorem advances_checkNew (name : Option Text) : Advances (checkNew name) := by
  unfold checkNew
  split
  · exact advances_get.bind fun source ↦ .ite advances_fail (advances_pure ())
  · exact advances_pure ()

theorem advances_noContent (name tag : Option Text) : Advances (noContent name tag) :=
  .ite (advances_define name _) advances_fail

theorem Advances.after {p : Prop} [Decidable p] {rest : Reading α} (h : Advances rest) :
    Advances (if p then fail >>= fun (_ : Unit) ↦ rest else rest) :=
  .ite (advances_fail.bind fun _ ↦ h) h

/-- Between brackets, a comma stands before every part but the first. -/
theorem advances_afterComma {rest : Reading α} (first : Bool) (h : Advances rest) :
    Advances (do
      if !first then
        if !(← skipIf .comma) then fail
      rest) :=
  .ite ((advances_skipIf .comma).bind fun _ ↦ h.after) h

/-! ## Nodes -/

/-- The functions that call each other, with some fuel. -/
structure AllAdvance (fuel : Nat) : Prop where
  node : ∀ levels inBlock atKey, Advances (node fuel levels inBlock atKey)
  nodeUnless : ∀ levels inBlock atKey ends, Advances (nodeUnless fuel levels inBlock atKey ends)
  items : ∀ levels, Advances (items fuel levels)
  looseItems : ∀ levels, Advances (looseItems fuel levels)
  valueIf : ∀ levels inBlock ends, Advances (valueIf fuel levels inBlock ends)
  entries : ∀ levels, Advances (entries fuel levels)
  flowItems : ∀ levels first, Advances (flowItems fuel levels first)
  flowEntries : ∀ levels first, Advances (flowEntries fuel levels first)

theorem allAdvance_zero : AllAdvance 0 where
  node _ _ _ := advances_fail
  nodeUnless _ _ _ _ := advances_fail
  items _ := advances_fail
  looseItems _ := advances_fail
  valueIf _ _ _ := advances_fail
  entries _ := advances_fail
  flowItems _ _ := advances_fail
  flowEntries _ _ := advances_fail

section

variable {fuel : Nat} (h : AllAdvance fuel)
include h

theorem AllAdvance.advances_node (levels : Nat) (inBlock atKey : Bool) :
    Advances (Reading.node (fuel + 1) levels inBlock atKey) := by
  cases levels with
  | zero => exact advances_tooDeep
  | succ levels =>
    rw [Reading.node]
    refine advances_peek.bind fun next ↦ ?_
    split
    · exact advances_skip.bind fun _ ↦ advances_refer _
    · refine advances_properties.bind fun (name, tag) ↦ advances_peek.bind fun next ↦ ?_
      refine (advances_checkNew name).bind fun _ ↦ ?_
      -- A collection is named twice: as far as it refers to itself, and when it is complete.
      have hcollection {γ : Type} (cut : Node) (make : γ → Node) (content : Reading γ)
          (hcontent : Advances content) :
          Advances (do discard (define name cut); define name (make (← content))) := by
        refine Advances.bind ?_ fun _ ↦ hcontent.bind fun _ ↦ advances_define name _
        exact (advances_define name cut).bind fun _ ↦ advances_pure ()
      have hsequence := hcollection (.seq (chooseTag .seq tag) [empty]) (.seq (chooseTag .seq tag))
      have hmapping :=
        hcollection (.map (chooseTag .map tag) [(empty, empty)]) (.map (chooseTag .map tag))
      have hnone := advances_noContent name tag
      dsimp only
      split
      · exact advances_skip.bind fun _ ↦ advances_define name _
      · exact advances_skip.bind fun _ ↦ hsequence _ (h.flowItems levels true)
      · exact advances_skip.bind fun _ ↦ hmapping _ (h.flowEntries levels true)
      · exact .ite (hsequence _ (h.looseItems levels)) hnone
      · exact .ite (advances_skip.bind fun _ ↦ hsequence _ (h.items levels)) hnone
      · exact .ite (advances_skip.bind fun _ ↦ hmapping _ (h.entries levels)) hnone
      · exact hnone

theorem AllAdvance.advances_nodeUnless (levels : Nat) (inBlock atKey : Bool) (ends : List Token) :
    Advances (Reading.nodeUnless (fuel + 1) levels inBlock atKey ends) := by
  rw [Reading.nodeUnless]
  exact (advances_isNext ends).bind fun _ ↦ .ite (advances_pure empty) (h.node levels inBlock atKey)

theorem AllAdvance.advances_valueIf (levels : Nat) (inBlock : Bool) (ends : List Token) :
    Advances (Reading.valueIf (fuel + 1) levels inBlock ends) := by
  rw [Reading.valueIf]
  exact (advances_skipIf _).bind fun _ ↦
    .ite (h.nodeUnless levels inBlock inBlock ends) (advances_pure empty)

theorem AllAdvance.advances_items (levels : Nat) :
    Advances (Reading.items (fuel + 1) levels) := by
  rw [Reading.items]
  refine (advances_skipIf _).bind fun found ↦ .ite ?_ ?_
  · exact (h.nodeUnless _ _ _ _).bind fun n ↦ (h.items levels).bind fun _ ↦ advances_pure _
  · exact (advances_skipIf _).bind fun found ↦ .ite (advances_pure []) advances_fail

theorem AllAdvance.advances_looseItems (levels : Nat) :
    Advances (Reading.looseItems (fuel + 1) levels) := by
  rw [Reading.looseItems]
  refine (advances_skipIf _).bind fun found ↦ .ite ?_ (advances_pure [])
  exact (h.nodeUnless _ _ _ _).bind fun n ↦ (h.looseItems levels).bind fun _ ↦ advances_pure _

theorem AllAdvance.advances_entries (levels : Nat) :
    Advances (Reading.entries (fuel + 1) levels) := by
  rw [Reading.entries]
  refine (advances_skipIf _).bind fun found ↦ .ite ?_ ?_
  · refine (h.nodeUnless _ _ _ _).bind fun k ↦ (h.valueIf _ _ _).bind fun v ↦ ?_
    exact (h.entries levels).bind fun _ ↦ advances_pure _
  · exact (advances_skipIf _).bind fun found ↦ .ite (advances_pure []) advances_fail

theorem AllAdvance.advances_flowItems (levels : Nat) (first : Bool) :
    Advances (Reading.flowItems (fuel + 1) levels first) := by
  rw [Reading.flowItems]
  refine (advances_skipIf _).bind fun _ ↦ .ite (advances_pure []) (advances_afterComma first ?_)
  refine (advances_skipIf _).bind fun _ ↦ .ite ?_ ?_
  · refine (h.nodeUnless _ _ _ _).bind fun k ↦ (h.valueIf _ _ _).bind fun v ↦ ?_
    exact (h.flowItems levels false).bind fun _ ↦ advances_pure _
  · refine (advances_skipIf _).bind fun _ ↦ .ite (advances_pure []) ?_
    exact (h.node _ _ _).bind fun n ↦ (h.flowItems levels false).bind fun _ ↦ advances_pure _

theorem AllAdvance.advances_flowEntries (levels : Nat) (first : Bool) :
    Advances (Reading.flowEntries (fuel + 1) levels first) := by
  rw [Reading.flowEntries]
  refine (advances_skipIf _).bind fun _ ↦ .ite (advances_pure []) (advances_afterComma first ?_)
  refine (advances_skipIf _).bind fun _ ↦ .ite ?_ ?_
  · refine (h.nodeUnless _ _ _ _).bind fun k ↦ (h.valueIf _ _ _).bind fun v ↦ ?_
    exact (h.flowEntries levels false).bind fun _ ↦ advances_pure _
  · refine (advances_skipIf _).bind fun _ ↦ .ite (advances_pure []) ?_
    exact (h.node _ _ _).bind fun n ↦ (h.flowEntries levels false).bind fun _ ↦ advances_pure _

end

theorem allAdvance (fuel : Nat) : AllAdvance fuel := by
  induction fuel with
  | zero => exact allAdvance_zero
  | succ fuel ih =>
    exact ⟨ih.advances_node, ih.advances_nodeUnless, ih.advances_items, ih.advances_looseItems,
      ih.advances_valueIf, ih.advances_entries, ih.advances_flowItems, ih.advances_flowEntries⟩

/-! ## Documents -/

theorem directives_eq_ok {versioned : Bool} {handles found : List (Text × Text)}
    {tokens rest : List Token} (h : directives versioned handles tokens = .ok (found, rest)) :
    rest <:+ tokens := by
  fun_induction directives versioned handles tokens with
  | case1 => cases h
  | case2 versioned handles major tokens hok ih => exact (ih h).trans (List.suffix_cons _ _)
  | case3 => cases h
  | case4 versioned handles name start tokens hok ih => exact (ih h).trans (List.suffix_cons _ _)
  | case5 versioned handles tokens ih => exact (ih h).trans (List.suffix_cons _ _)
  | case6 =>
    cases h
    exact List.suffix_rfl

theorem directives_eq_error {versioned : Bool} {handles : List (Text × Text)}
    {tokens : List Token} {fault : Fault} (h : directives versioned handles tokens = .error fault) :
    fault = .malformed := by
  fun_induction directives versioned handles tokens with
  | case1 => cases h; rfl
  | case2 versioned handles major tokens hok ih => exact ih h
  | case3 => cases h; rfl
  | case4 versioned handles name start tokens hok ih => exact ih h
  | case5 versioned handles tokens ih => exact ih h
  | case6 => cases h

theorem theEnd_eq_error {tokens : List Token} {fault : Fault} (h : theEnd tokens = .error fault) :
    IsShapeOr tokens fault := by
  rw [theEnd] at h
  split at h
  · cases h
  · split at h
    · next found fault' rest hrest =>
      cases h
      have hsuffix := (directives_eq_ok hrest).trans (List.dropWhile_suffix _)
      exact .inr (.inr (hsuffix.subset List.mem_cons_self))
    · cases h
      exact .inl rfl

theorem run_eq_error {x : Reading Node} (hx : Advances x) {source : Source} {fault : Fault}
    (h : (do
      let (n, source) ← x.run source
      theEnd source.tokens
      return some n : Except Fault (Option Node)) = .error fault) :
    IsShapeOr source.tokens fault := by
  rcases bind_eq_error h with hrun | ⟨⟨n, after⟩, hrun, h⟩
  · exact hx.fault hrun
  · rcases bind_eq_error h with hend | ⟨_, -, h⟩
    · exact (theEnd_eq_error hend).mono (hx.isSuffix hrun).subset
    · cases h

/-- Brackets that open more collections than there are levels are refused. -/
theorem run_node_replicate {handles : List (Text × Text)} {named : List (Text × Node)}
    {n fuel levels : Nat} (hn : levels < n) (hfuel : 2 * levels < fuel) (inBlock atKey : Bool)
    (rest : List Token) :
    (node fuel levels inBlock atKey).run ⟨List.replicate n .openSeq ++ rest, handles, named⟩ =
      .error .tooDeep := by
  induction levels generalizing n fuel inBlock atKey with
  | zero =>
    obtain ⟨fuel, rfl⟩ : ∃ f, fuel = f + 1 := ⟨fuel - 1, by omega⟩
    rfl
  | succ levels ih =>
    obtain ⟨fuel, rfl⟩ : ∃ f, fuel = f + 2 := ⟨fuel - 2, by omega⟩
    obtain ⟨n, rfl⟩ : ∃ m, n = m + 2 := ⟨n - 2, by omega⟩
    have hcollection (tokens : List Token) :
        (node (fuel + 2) (levels + 1) inBlock atKey).run ⟨.openSeq :: tokens, handles, named⟩ =
          ((flowItems (fuel + 1) levels true).run ⟨tokens, handles, named⟩).map
            fun found ↦ (.seq .seq found.1, found.2) := by
      rw [node]
      rfl
    have hfirst (tokens : List Token) {fault : Fault}
        (h : (node fuel levels false false).run ⟨.openSeq :: tokens, handles, named⟩ =
          .error fault) :
        (flowItems (fuel + 1) levels true).run ⟨.openSeq :: tokens, handles, named⟩ =
          .error fault := by
      rw [flowItems]
      show (node fuel levels false false).run ⟨.openSeq :: tokens, handles, named⟩ >>= _ = _
      rw [h]
      rfl
    have hinside := ih (show levels < n + 1 by omega) (show 2 * levels < fuel by omega) false false
    rw [List.replicate_succ, List.cons_append] at hinside ⊢
    rw [hcollection, List.replicate_succ, List.cons_append, hfirst _ hinside]
    rfl

end Reading

open Reading in
/-- A document is not read because of its shape, or because of one of its tokens. -/
theorem document_eq_error {tokens : List Token} {fault : Fault}
    (h : document tokens = .error fault) : IsShapeOr tokens fault := by
  unfold document at h
  dsimp only at h
  split at h
  · cases h
  · next t rest =>
    split at h
    · rcases bind_eq_error h with hhead | ⟨⟨handles, after⟩, hhead, h⟩
      · exact .inl (directives_eq_error hhead)
      · refine (run_eq_error ?_ h).mono (directives_eq_ok hhead).subset
        refine (advances_skipIf .documentStart).bind fun _ ↦ .after ?_
        refine advances_peek.bind fun next ↦ ?_
        split
        · exact advances_pure empty
        · exact .ite (advances_pure empty) ((allAdvance _).node _ true false)
    · exact run_eq_error ((allAdvance _).node _ true false) h

/-- **Brackets that open too many collections are refused**, whatever follows them. -/
theorem document_replicate_openSeq {n : Nat} (hn : maxDepth + 1 < n) (rest : List Token) :
    document (List.replicate n .openSeq ++ rest) = .error .tooDeep := by
  have hfuel : 2 * (maxDepth + 1) < 4 * (List.replicate n Token.openSeq ++ rest).length + 4 := by
    rw [List.length_append, List.length_replicate]
    omega
  have hrun := @Reading.run_node_replicate Reading.standardHandles [] n _ _ hn hfuel true false rest
  obtain ⟨n, rfl⟩ : ∃ m, n = m + 1 := ⟨n - 1, by omega⟩
  rw [List.replicate_succ, List.cons_append] at hrun ⊢
  have hhead : Reading.isHead .openSeq = false := rfl
  rw [document]
  dsimp only
  rw [hhead, if_neg Bool.false_ne_true, hrun]
  rfl

end Node

/-! ## Faults of documents -/

/-- Where a fault of a text lies: in a word, or in a node. -/
inductive Fault.Lies (t : Text) : Fault → Prop
  /-- A word has it. -/
  | word {fault : Fault} (hmem : .broken fault ∈ Token.all t) (h : Token.IsWordFault fault) :
    Lies t fault
  /-- A node refuses its text with it. -/
  | node {fault : Fault} {n m : Node} (hdocument : Node.document (Token.all t) = .ok (some n))
    (hm : m.Within n) (h : m.Refuses fault) : Lies t fault

/-- **A text that is not read is malformed or nests too deeply, or a word or a node in it has the
fault.** -/
theorem lies_of_read {t : Text} {fault : Fault} (h : read t = .error fault)
    (hne : fault ≠ .malformed) (hdeep : fault ≠ .tooDeep) : fault.Lies t := by
  rcases bind_eq_error h with hdocument | ⟨found, hdocument, h⟩
  · have hmem := ((Node.document_eq_error hdocument).resolve_left hne).resolve_left hdeep
    exact .word hmem (Token.isWordFault_of_mem_all hmem)
  · cases found with
    | none => cases h
    | some n =>
      obtain ⟨m, hm, hfault⟩ := Node.exists_of_denote_error h hne
      exact .node hdocument hm hfault

end RouteCatalog.Yaml
