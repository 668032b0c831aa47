import RouteCatalog.Yaml.Meaning

/-!
# Nodes that denote nothing

A collection of nodes adds no fault of its own but that the document is malformed; every other fault
is that of one node, whose text its tag refuses (`Node.exists_of_denote_error`). A mapping refuses
the text under its special key in the same way, since it may stand for that text.
-/

namespace RouteCatalog.Yaml

/-! ## Faults of collections -/

namespace Denoted

variable {P : Fault → Prop} {former later : List (Option Fault)} {d : Denoted}

/-- All faults of a list have a property. -/
def All (P : Fault → Prop) (faults : List (Option Fault)) : Prop :=
  ∀ fault, some fault ∈ faults → P fault

/-- All faults of what a node denotes have a property. -/
def Only (P : Fault → Prop) (d : Denoted) : Prop := All P d.faults

/-- The faults of all keys and values have a property. -/
def EntriesOnly (P : Fault → Prop) (entries : List (Denoted × Denoted)) : Prop :=
  ∀ e ∈ entries, e.1.Only P ∧ e.2.Only P

theorem all_nil : All P [] := fun _ h ↦ absurd h List.not_mem_nil

theorem All.inOrder (hformer : All P former) (hlater : All P later) :
    All P (inOrder former later) := by
  induction former generalizing later with
  | nil => exact hlater
  | cons a former ih =>
    cases later with
    | nil => exact hformer
    | cons b later =>
      intro fault hmem
      rw [Denoted.inOrder] at hmem
      rcases List.mem_cons.mp hmem with heq | hmem
      · rcases Option.or_eq_some_iff.mp heq.symm with ha | ⟨-, hb⟩
        · exact hformer fault (ha ▸ List.mem_cons_self)
        · exact hlater fault (hb ▸ List.mem_cons_self)
      · exact ih (fun fault h ↦ hformer fault (List.mem_cons_of_mem a h))
          (fun fault h ↦ hlater fault (List.mem_cons_of_mem b h)) fault hmem

theorem all_foldr {parts : List (List (Option Fault))} (h : ∀ part ∈ parts, All P part) :
    All P (parts.foldr Denoted.inOrder []) := by
  induction parts with
  | nil => exact all_nil
  | cons part parts ih =>
    obtain ⟨hpart, hparts⟩ := List.forall_mem_cons.mp h
    exact hpart.inOrder (ih hparts)

theorem all_around {parts : List (List (Option Fault))} (h : ∀ part ∈ parts, All P part) :
    All P (around parts) := by
  intro fault hmem
  rcases List.mem_cons.mp hmem with heq | hmem
  · cases heq
  · exact all_foldr h fault hmem

theorem only_pure (v : Yaml) : (Denoted.pure v).Only P := all_nil

theorem only_refused {fault : Fault} (h : P fault) : (refused fault).Only P := by
  intro other hmem
  cases List.mem_singleton.mp hmem
  exact h

theorem only_misshapen (h : P .malformed) (v : Yaml) : (misshapen v).Only P := by
  intro fault hmem
  rcases List.mem_cons.mp hmem with heq | hmem
  · cases heq
  · cases List.mem_singleton.mp hmem
    exact h

theorem only_ofExcept {r : Except Fault Yaml} (h : ∀ fault, r = .error fault → P fault) :
    (ofExcept r).Only P := by
  cases r with
  | ok v => exact only_pure v
  | error fault => exact only_refused (h fault rfl)

theorem only_seq {items : List Denoted} (h : ∀ d ∈ items, d.Only P) : (seq items).Only P := by
  apply all_around
  intro part hpart
  obtain ⟨d, hd, rfl⟩ := List.mem_map.mp hpart
  exact h d hd

theorem all_entryFaults (h : P .malformed) {key value : Denoted} (hkey : key.Only P)
    (hvalue : value.Only P) : All P (entryFaults key value) := by
  refine All.inOrder hkey (All.inOrder ?_ hvalue)
  split
  · intro fault hmem
    cases List.mem_singleton.mp hmem
    exact h
  · exact all_nil

section

variable {entries : List (Denoted × Denoted)} (hentries : EntriesOnly P entries)
include hentries

theorem only_map (h : P .malformed) : (map entries).Only P := by
  apply all_around
  intro part hpart
  obtain ⟨e, he, rfl⟩ := List.mem_map.mp hpart
  exact all_entryFaults h (hentries e he).1 (hentries e he).2

theorem only_set (h : P .malformed) : (set entries).Only P := only_map hentries h

theorem only_pairs : (pairs entries).Only P := by
  apply all_around
  intro part hpart
  obtain ⟨e, he, rfl⟩ := List.mem_map.mp hpart
  exact All.inOrder (hentries e he).1 (hentries e he).2

end

theorem Only.of_result {fault : Fault} (h : d.Only P) (hd : d.result = .error fault) :
    P fault := by
  rw [result] at hd
  split at hd
  · next found hfound =>
    cases hd
    obtain ⟨a, hmem, ha⟩ := List.exists_of_findSome?_eq_some hfound
    exact h _ (ha ▸ hmem)
  · cases hd

end Denoted

/-! ## Nodes -/

/-- All faults of what a node denotes, and of what it gives to the nodes around it, have a
property. -/
structure Meaning.Only (P : Fault → Prop) (m : Meaning) : Prop where
  denoted : m.denoted.Only P
  /-- The entries as they are written. -/
  written : ∀ entries, m.written = some entries → Denoted.EntriesOnly P entries
  /-- The entries with those that are merged in. -/
  entries : ∀ entries, m.entries = some entries → Denoted.EntriesOnly P entries
  /-- The entries that are merged elsewhere. -/
  merged : ∀ entries, m.merged = some entries → Denoted.EntriesOnly P entries

namespace Node

/-- What holds of scalars, of sequences whose items have it, and of mappings whose keys and values
have it, holds of all nodes. -/
@[elab_as_elim]
theorem induct {motive : Node → Prop} (scalar : ∀ tag text, motive (.scalar tag text))
    (seq : ∀ tag items, (∀ n ∈ items, motive n) → motive (.seq tag items))
    (map : ∀ tag entries, (∀ e ∈ entries, motive e.1 ∧ motive e.2) → motive (.map tag entries))
    (n : Node) : motive n := by
  refine @Node.rec motive (fun items ↦ ∀ n ∈ items, motive n)
    (fun entries ↦ ∀ e ∈ entries, motive e.1 ∧ motive e.2) (fun e ↦ motive e.1 ∧ motive e.2)
    scalar seq map ?itemsNil ?itemsCons ?entriesNil ?entriesCons ?entry n
  case itemsNil => exact List.forall_mem_nil _
  case itemsCons => exact fun n rest hn hrest ↦ List.forall_mem_cons.mpr ⟨hn, hrest⟩
  case entriesNil => exact List.forall_mem_nil _
  case entriesCons => exact fun e rest he hrest ↦ List.forall_mem_cons.mpr ⟨he, hrest⟩
  case entry => exact fun _ _ hk hv ↦ ⟨hk, hv⟩

/-- A node is a node or lies inside it. -/
inductive Within (m : Node) : Node → Prop
  | refl : Within m m
  | item {tag : Tag} {items : List Node} {n : Node} (hmem : n ∈ items) (h : Within m n) :
    Within m (.seq tag items)
  | key {tag : Tag} {entries : List (Node × Node)} {e : Node × Node} (hmem : e ∈ entries)
    (h : Within m e.1) : Within m (.map tag entries)
  | value {tag : Tag} {entries : List (Node × Node)} {e : Node × Node} (hmem : e ∈ entries)
    (h : Within m e.2) : Within m (.map tag entries)

/-- The text of a node is none for its tag. -/
inductive Refuses : Node → Fault → Prop
  | scalar {tag : Tag} {text : Text} {fault : Fault} (h : ofScalar tag text = .error fault) :
    Refuses (.scalar tag text) fault
  /-- The text under the special key of a mapping. -/
  | map {tag : Tag} {entries : List (Node × Node)} {text : Text} {fault : Fault}
    (htag : tag ≠ .timestamp) (htext : scalarText? (.map tag entries) = some text)
    (h : ofScalar tag text = .error fault) : Refuses (.map tag entries) fault
  /-- A mapping is no timestamp, whatever its text. -/
  | timestamp {entries : List (Node × Node)} {text : Text}
    (htext : scalarText? (.map .timestamp entries) = some text) :
    Refuses (.map .timestamp entries) .timestampMapping

open Denoted

variable {P : Fault → Prop} {tag : Tag}

theorem only_ofText (h : P .malformed) {text : Text}
    (hscalar : ∀ fault, ofScalar tag text = .error fault → P fault) : (ofText tag text).Only P := by
  unfold ofText
  split
  · exact only_misshapen h _
  · exact only_misshapen h _
  · exact only_misshapen h _
  · exact only_misshapen h _
  · exact only_misshapen h _
  · exact only_ofExcept hscalar

section

variable {items : List Meaning} (hitems : ∀ m ∈ items, m.Only P)
include hitems

theorem entriesOnly_flatten {mappings : List (List (Denoted × Denoted))}
    (hmappings : items.mapM (fun m ↦ m.written) = some mappings) :
    EntriesOnly P mappings.flatten := by
  induction items generalizing mappings with
  | nil =>
    cases hmappings
    exact List.forall_mem_nil _
  | cons m items ih =>
    obtain ⟨hm, hrest⟩ := List.forall_mem_cons.mp hitems
    rw [List.mapM_cons] at hmappings
    obtain ⟨entries, hentries, hmappings⟩ := Option.bind_eq_some_iff.mp hmappings
    obtain ⟨others, hothers, hmappings⟩ := Option.bind_eq_some_iff.mp hmappings
    cases hmappings
    rw [List.flatten_cons]
    exact List.forall_mem_append.mpr ⟨hm.written entries hentries, ih hrest hothers⟩

theorem only_ofItems (h : P .malformed) : (ofItems tag items).Only P := by
  unfold ofItems
  split
  · apply only_seq
    intro d hd
    obtain ⟨m, hm, rfl⟩ := List.mem_map.mp hd
    exact (hitems m hm).denoted
  · split
    · exact only_misshapen h _
    · next mappings hmappings =>
      split
      · exact only_pairs (entriesOnly_flatten hitems hmappings)
      · exact only_misshapen h _
  · split
    · exact only_misshapen h _
    · next mappings hmappings =>
      split
      · exact only_pairs (entriesOnly_flatten hitems hmappings)
      · exact only_misshapen h _
  · exact only_misshapen h _
  · exact only_misshapen h _
  · exact only_refused h

theorem entriesOnly_mergeAll {entries : List (Denoted × Denoted)}
    (hentries : mergeAll items = some entries) : EntriesOnly P entries := by
  induction items generalizing entries with
  | nil =>
    cases hentries
    exact List.forall_mem_nil _
  | cons m items ih =>
    obtain ⟨hm, hrest⟩ := List.forall_mem_cons.mp hitems
    obtain ⟨later, hlater, hentries⟩ := Option.bind_eq_some_iff.mp hentries
    obtain ⟨own, hown, hentries⟩ := Option.bind_eq_some_iff.mp hentries
    cases hentries
    exact List.forall_mem_append.mpr ⟨ih hrest hlater, hm.entries own hown⟩

end

theorem only_ofEntries (h : P .malformed) {text : Option Text}
    {entries : Option (List (Denoted × Denoted))}
    (hentries : ∀ found, entries = some found → EntriesOnly P found)
    (htimestamp : tag = .timestamp → text.isSome → P .timestampMapping)
    (htext : tag ≠ .timestamp → ∀ t, text = some t →
      ∀ fault, ofScalar tag t = .error fault → P fault) :
    (ofEntries tag text entries).Only P := by
  unfold ofEntries
  split
  · next found => exact only_map (hentries found rfl) h
  · exact only_misshapen h _
  · next found => exact only_set (hentries found rfl) h
  · exact only_misshapen h _
  · exact only_misshapen h _
  · exact only_misshapen h _
  · exact only_misshapen h _
  · apply only_refused
    split
    · next hsome => exact htimestamp rfl hsome
    · exact h
  · next hnot _ _ _ _ =>
    split
    · next t => exact only_ofExcept (htext hnot t rfl)
    · exact only_refused h

/-- All faults of an entry, also of its key inside a mapping, have a property. -/
structure Entry.Only (P : Fault → Prop) (e : Entry) : Prop where
  key : e.key.Only P
  /-- The key inside a mapping. -/
  plainKey : e.plainKey.Only P
  value : e.value.Only P

theorem entriesOnly_splitMerges {entries : List Entry} (hentries : ∀ e ∈ entries, e.Only P)
    {merged own : List (Denoted × Denoted)} (hsplit : splitMerges entries = some (merged, own)) :
    EntriesOnly P merged ∧ EntriesOnly P own := by
  induction entries generalizing merged own with
  | nil =>
    cases hsplit
    exact ⟨List.forall_mem_nil _, List.forall_mem_nil _⟩
  | cons e entries ih =>
    obtain ⟨he, hrest⟩ := List.forall_mem_cons.mp hentries
    rw [splitMerges] at hsplit
    split at hsplit
    · obtain ⟨former, hformer, hsplit⟩ := Option.bind_eq_some_iff.mp hsplit
      obtain ⟨⟨later, others⟩, hlater, hsplit⟩ := Option.bind_eq_some_iff.mp hsplit
      cases hsplit
      obtain ⟨hmerged, hown⟩ := ih hrest hlater
      exact ⟨List.forall_mem_append.mpr ⟨he.value.merged former hformer, hmerged⟩, hown⟩
    · obtain ⟨⟨later, others⟩, hlater, hsplit⟩ := Option.bind_eq_some_iff.mp hsplit
      cases hsplit
      obtain ⟨hmerged, hown⟩ := ih hrest hlater
      exact ⟨hmerged, List.forall_mem_cons.mpr ⟨⟨he.plainKey, he.value.denoted⟩, hown⟩⟩

theorem only_itemMeanings {items : List Node} (h : ∀ n ∈ items, (meaning n.tag n).Only P) :
    ∀ m ∈ itemMeanings items, m.Only P := by
  induction items with
  | nil => exact List.forall_mem_nil _
  | cons n items ih =>
    obtain ⟨hn, hrest⟩ := List.forall_mem_cons.mp h
    exact List.forall_mem_cons.mpr ⟨hn, ih hrest⟩

theorem only_entryMeanings {entries : List (Node × Node)}
    (h : ∀ e ∈ entries, ∀ n, n = e.1 ∨ n = e.2 →
      ∀ tag, tag = n.tag ∨ tag = .str → (meaning tag n).Only P) :
    ∀ e ∈ entryMeanings entries, e.Only P := by
  induction entries with
  | nil => exact List.forall_mem_nil _
  | cons e entries ih =>
    obtain ⟨he, hrest⟩ := List.forall_mem_cons.mp h
    refine List.forall_mem_cons.mpr ⟨⟨(he e.1 (.inl rfl) _ (.inl rfl)).denoted, ?_,
      he e.2 (.inr rfl) _ (.inl rfl)⟩, ih hrest⟩
    apply Meaning.Only.denoted
    apply he e.1 (.inl rfl)
    split
    · exact .inr rfl
    · exact .inl rfl

/-- The faults of a node are that it is malformed and those of the texts that are refused in it,
under its own tag and as a string. -/
theorem only_meaning (h : P .malformed) {n : Node}
    (hn : ∀ m fault, Within m n → m.Refuses fault → P fault) (htag : tag = n.tag ∨ tag = .str) :
    (meaning tag n).Only P := by
  induction n using induct generalizing tag with
  | scalar own text =>
    refine ⟨only_ofText h fun fault hfault ↦ ?_, nofun, nofun, nofun⟩
    rcases htag with rfl | rfl
    · exact hn _ _ .refl (.scalar hfault)
    · cases hfault
  | seq own items ih =>
    have hitems : ∀ m ∈ itemMeanings items, m.Only P := only_itemMeanings fun n hmem ↦
      ih n hmem (fun m fault hm ↦ hn m fault (.item hmem hm)) (.inl rfl)
    exact ⟨only_ofItems hitems h, nofun, nofun, fun entries ↦ entriesOnly_mergeAll hitems⟩
  | map own entries ih =>
    have hentries : ∀ e ∈ entryMeanings entries, e.Only P := by
      refine only_entryMeanings fun e hmem n hwhich tag htag ↦ ?_
      rcases hwhich with rfl | rfl
      · exact (ih e hmem).1 (fun m fault hm ↦ hn m fault (.key hmem hm)) htag
      · exact (ih e hmem).2 (fun m fault hm ↦ hn m fault (.value hmem hm)) htag
    have hflat : ∀ flat, (splitMerges (entryMeanings entries)).map
        (fun split ↦ split.1 ++ split.2) = some flat → EntriesOnly P flat := by
      intro flat hflat
      obtain ⟨split, hsplit, rfl⟩ := Option.map_eq_some_iff.mp hflat
      exact List.forall_mem_append.mpr (entriesOnly_splitMerges hentries hsplit)
    refine ⟨only_ofEntries h hflat ?_ ?_, ?_, hflat, hflat⟩
    · rintro rfl htext
      obtain ⟨text, htext⟩ := Option.isSome_iff_exists.mp htext
      obtain rfl : .timestamp = own := htag.resolve_right nofun
      exact hn _ _ .refl (.timestamp htext)
    · intro hne text htext fault hfault
      rcases htag with rfl | rfl
      · exact hn _ _ .refl (.map hne htext hfault)
      · cases hfault
    · intro written hwritten
      cases hwritten
      intro e hmem
      obtain ⟨entry, hentry, rfl⟩ := List.mem_map.mp hmem
      exact ⟨(hentries entry hentry).key, (hentries entry hentry).value.denoted⟩

/-- **A fault other than that the document is malformed is that of one of its nodes.** -/
theorem exists_of_denote_error {n : Node} {fault : Fault} (h : n.denote = .error fault)
    (hne : fault ≠ .malformed) : ∃ m, Within m n ∧ m.Refuses fault := by
  have honly : (meaning n.tag n).denoted.Only
      fun fault ↦ fault = .malformed ∨ ∃ m, Within m n ∧ m.Refuses fault :=
    (only_meaning (.inl rfl) (fun m _ hm hfault ↦ .inr ⟨m, hm, hfault⟩) (.inl rfl)).denoted
  exact (honly.of_result h).resolve_left hne

end Node

end RouteCatalog.Yaml
