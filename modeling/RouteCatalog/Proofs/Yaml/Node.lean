import RouteCatalog.Proofs.Yaml.Line
import RouteCatalog.Yaml.Reader

/-!
# The nodes of a mapping and what they denote

The tokens of a mapping make up one node for each key and each value (`Node.document_lines`). A
mapping of nodes without faults has none itself (`Denoted.result_map`), and entries of which no two
have the same key are kept as they are (`entriesOf_of_pairwise`).
-/

namespace RouteCatalog.Yaml

variable {t : Text} {tag : Tag} {v : Yaml}

/-! ## From tokens to nodes -/

/-- The nodes of a line. -/
def Token.Line.nodes (l : Line) : Node × Node :=
  (.scalar (.ofPlain l.key) l.key,
    .scalar (Node.Reading.scalarTag l.text (Style.choose l.isPlain false l.text = .plain) none)
      l.text)

namespace Node

namespace Reading

variable {rest : List Token} {handles : List (Text × Text)} {named : List (Text × Node)}
  {found : List (Node × Node)} {source : Source}

theorem run_entries_line {l : Token.Line} {fuel levels : Nat}
    (hrest : (entries (fuel + 4) (levels + 1)).run ⟨rest, handles, named⟩ = .ok (found, source)) :
    (entries (fuel + 5) (levels + 1)).run ⟨l.tokens ++ rest, handles, named⟩ =
      .ok (l.nodes :: found, source) := by
  have hkey : (skipIf .key).run ⟨l.tokens ++ rest, handles, named⟩ =
      .ok (true, ⟨l.tokens.tail ++ rest, handles, named⟩) := rfl
  have hentries : (entries (fuel + 5) (levels + 1)).run ⟨l.tokens ++ rest, handles, named⟩ =
      ((entries (fuel + 4) (levels + 1)).run ⟨rest, handles, named⟩).map
        fun (found, source) ↦ (l.nodes :: found, source) := by
    rw [entries, StateT.run_bind, hkey]
    rfl
  rw [hentries, hrest]
  rfl

theorem run_entries_lines {lines : List Token.Line} {fuel levels : Nat}
    (hfuel : lines.length + 4 ≤ fuel) :
    (entries fuel (levels + 1)).run
        ⟨lines.flatMap Token.Line.tokens ++ [.blockEnd], handles, named⟩ =
      .ok (lines.map Token.Line.nodes, ⟨[], handles, named⟩) := by
  induction lines generalizing fuel with
  | nil =>
    obtain ⟨fuel, rfl⟩ : ∃ f, fuel = f + 1 := ⟨fuel - 1, by omega⟩
    rw [entries]
    rfl
  | cons l lines ih =>
    rw [List.length_cons] at hfuel
    obtain ⟨fuel, rfl⟩ : ∃ f, fuel = f + 5 := ⟨fuel - 5, by omega⟩
    rw [List.flatMap_cons, List.append_assoc]
    exact run_entries_line (ih (by omega))

theorem run_node_lines {lines : List Token.Line} {fuel levels : Nat}
    (hfuel : lines.length + 4 ≤ fuel) :
    (node (fuel + 1) (levels + 2) true false).run
      ⟨.blockMap :: (lines.flatMap Token.Line.tokens ++ [.blockEnd]), handles, named⟩ =
      .ok (.map .map (lines.map Token.Line.nodes), ⟨[], handles, named⟩) := by
  have hnode (tokens : List Token) :
      (node (fuel + 1) (levels + 2) true false).run ⟨.blockMap :: tokens, handles, named⟩ =
        ((entries fuel (levels + 1)).run ⟨tokens, handles, named⟩).map
          fun found ↦ (.map .map found.1, found.2) := by
    rw [node]
    rfl
  rw [hnode, run_entries_lines hfuel]
  rfl

end Reading

/-- **The tokens of a mapping make up its nodes.** -/
theorem document_lines (lines : List Token.Line) :
    document (.blockMap :: (lines.flatMap Token.Line.tokens ++ [.blockEnd])) =
      .ok (some (.map .map (lines.map Token.Line.nodes))) := by
  have hlength : lines.length ≤ (lines.flatMap Token.Line.tokens).length := by
    induction lines with
    | nil => exact Nat.le_refl 0
    | cons l lines ih =>
      have htokens : l.tokens.length = 4 := rfl
      rw [List.flatMap_cons, List.length_append, List.length_cons, htokens]
      omega
  generalize htokens : lines.flatMap Token.Line.tokens ++ [.blockEnd] = tokens
  have hrun : (Reading.node (4 * (Token.blockMap :: tokens).length + 4) (maxDepth + 1)
      true false).run ⟨.blockMap :: tokens, Reading.standardHandles, []⟩ =
      .ok (.map .map (lines.map Token.Line.nodes), ⟨[], Reading.standardHandles, []⟩) := by
    rw [← htokens]
    refine Reading.run_node_lines ?_
    rw [List.length_cons, List.length_append]
    omega
  have hhead : Reading.isHead .blockMap = false := rfl
  rw [document]
  dsimp only
  rw [hhead, if_neg Bool.false_ne_true, hrun]
  rfl

end Node

/-! ## From nodes to values -/

namespace Denoted

theorem ofText_of_ofScalar (h : ofScalar tag t = .ok v) : Node.ofText tag t = .pure v := by
  have hscalar : Node.ofText tag t = .ofExcept (ofScalar tag t) := by
    cases tag with
    | seq => cases h
    | map => cases h
    | set => cases h
    | omap => cases h
    | pairs => cases h
    | _ => rfl
  rw [hscalar, h]
  rfl

theorem result_map {entries : List (Yaml × Yaml)} (hkeys : ∀ e ∈ entries, isNoKey e.1 = false) :
    (map (entries.map fun e ↦ (pure e.1, pure e.2))).result = .ok (.map (entriesOf entries)) := by
  have hfaults : (entries.map fun e ↦ entryFaults (pure e.1) (pure e.2)).foldr inOrder [] = [] := by
    induction entries with
    | nil => rfl
    | cons e entries ih =>
      obtain ⟨he, hentries⟩ := List.forall_mem_cons.mp hkeys
      have hnone : entryFaults (pure e.1) (pure e.2) = [] := by
        rw [entryFaults]
        simp only [pure, he]
        rfl
      rw [List.map_cons, List.foldr_cons, ih hentries, hnone]
      rfl
  have hvalues : (entries.map fun e ↦ ((pure e.1).value, (pure e.2).value)) = entries :=
    List.map_id' entries
  simp only [map, result, around, List.map_map, Function.comp_def, hfaults, hvalues]
  rfl

end Denoted

/-! ## Keys -/

theorem setEntry_of_new {done : List (Yaml × Yaml)} {key : Yaml}
    (h : ∀ e ∈ done, sameKey e.1 key = false) (value : Yaml) :
    setEntry key value done = done ++ [(key, value)] := by
  induction done with
  | nil => rfl
  | cons e done ih =>
    obtain ⟨he, hdone⟩ := List.forall_mem_cons.mp h
    rw [setEntry, he, if_neg Bool.false_ne_true, ih hdone]
    rfl

theorem entriesOf_of_pairwise {entries : List (Yaml × Yaml)}
    (h : entries.Pairwise fun d e ↦ sameKey d.1 e.1 = false) : entriesOf entries = entries := by
  suffices hfold : ∀ done : List (Yaml × Yaml),
      (done ++ entries).Pairwise (fun d e ↦ sameKey d.1 e.1 = false) →
        entries.foldl (fun done e ↦ setEntry e.1 e.2 done) done = done ++ entries from
    hfold [] h
  clear h
  induction entries with
  | nil => exact fun done _ ↦ (List.append_nil done).symm
  | cons e entries ih =>
    intro done h
    have hnew : ∀ d ∈ done, sameKey d.1 e.1 = false := fun d hd ↦
      (List.pairwise_append.mp h).2.2 d hd e List.mem_cons_self
    have hset : setEntry e.1 e.2 done = done ++ [e] := setEntry_of_new hnew e.2
    rw [List.append_cons] at h
    show entries.foldl _ (setEntry e.1 e.2 done) = _
    rw [hset, ih _ h, ← List.append_cons]

end RouteCatalog.Yaml
