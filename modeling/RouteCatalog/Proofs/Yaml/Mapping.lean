import RouteCatalog.Proofs.Yaml.Node
import RouteCatalog.Yaml.Writer

/-!
# Mappings of scalars are read back

A mapping of names to scalars reads back as itself (`read_write`). Its text is that of its lines;
their tokens make up a mapping of scalar nodes, whose tags are the ones the text was written with;
and these denote the values, since no name comes twice. What has to be known of a value is that it
is written as a scalar that denotes it, and that only strings need quotes (`Field`).
-/

namespace RouteCatalog.Yaml

variable {k t : Text} {tag : Tag} {v : Yaml}

/-! ## Texts without gaps -/

namespace Style

/-- A visible character other than a colon. -/
def isInk (c : CodePoint) : Bool := isSimple c && c ≠ ' ' && c ≠ ':'

theorem hasSeparator_of_isInk (h : ∀ c ∈ t, isInk c = true) : hasSeparator t = false := by
  induction t with
  | nil => rfl
  | cons c t ih =>
    obtain ⟨hc, ht⟩ := List.forall_mem_cons.mp h
    simp only [isInk, Bool.and_eq_true, decide_eq_true_eq] at hc
    obtain ⟨⟨hsimple, hblank⟩, hcolon⟩ := hc
    simp only [hasSeparator, hcolon, isSpace_of_isSimple hsimple hblank, ih ht, decide_false,
      Bool.false_and, Bool.or_self]

/-- A text without blanks and colons is plain, unless its start means something else. -/
theorem allowsPlain_of_isInk (h : ∀ c ∈ t, isInk c = true) (hstart : startsOdd t = false) :
    allowsPlain t = true := by
  have hsimple (c : CodePoint) (hc : c ∈ t) : isSimple c = true := by
    have := h c hc
    simp only [isInk, Bool.and_eq_true] at this
    exact this.1.1
  have hblank : CodePoint.ofChar ' ' ∉ t := fun hmem ↦ absurd (h _ hmem) (by decide)
  simp only [allowsPlain, Bool.and_eq_true, decide_eq_true_eq, Bool.not_eq_true']
  exact ⟨⟨⟨⟨List.all_eq_true.mpr hsimple, fun hhead ↦ hblank (List.mem_of_head? hhead)⟩,
    fun hlast ↦ hblank (List.mem_of_getLast? hlast)⟩, hstart⟩, hasSeparator_of_isInk h⟩

end Style

/-! ## Names -/

/-- A text that is a simple key as it is, and a string. -/
structure IsName (k : Text) : Prop where
  chars : ∀ c ∈ k, Token.Plain.isKeyChar c = true
  ne_nil : k ≠ []
  short : Tag.str.short.length + k.length ≤ maxSimpleKey
  /-- It is not the word for another value. -/
  tag : Tag.ofPlain k = .str

namespace IsName

theorem isKey (h : IsName k) : Token.IsKey k where
  chars := h.chars
  ne_nil := h.ne_nil
  short := by
    have hshort := h.short
    have hreach : maxSimpleKey ≤ Token.State.reach := by decide
    omega

theorem startsOdd_eq (h : ∀ c ∈ k, Token.Plain.isKeyChar c = true) :
    Style.startsOdd k = false := by
  cases k with
  | nil => rfl
  | cons c k =>
    have hc := Token.Plain.of_isKeyChar (p := fun c ↦ CodePoint.ofChar '-' ≠ c &&
      CodePoint.ofChar '.' ≠ c && !Style.indicators.contains c &&
      !(c = '?' || c = ':' || c = '-')) (by decide) (h c List.mem_cons_self)
    simp only [Bool.and_eq_true, decide_eq_true_eq, Bool.not_eq_true'] at hc
    obtain ⟨⟨⟨hdash, hdot⟩, hindicator⟩, hmark⟩ := hc
    have hdashes : Text.startsWith "---" (c :: k) = false :=
      Text.startsWith_cons_of_ne hdash _ _
    have hdots : Text.startsWith "..." (c :: k) = false := Text.startsWith_cons_of_ne hdot _ _
    rw [Style.startsOdd, hdashes, hdots, hindicator, hmark]
    rfl

theorem allowsPlain (h : IsName k) : Style.allowsPlain k = true :=
  Style.allowsPlain_of_isInk (fun c hc ↦ Token.Plain.of_isKeyChar (by decide) (h.chars c hc))
    (startsOdd_eq h.chars)

theorem simpleKey?_eq (h : IsName k) : simpleKey? (.str k) = some k := by
  have hempty : k.isEmpty = false := List.isEmpty_eq_false_iff.mpr h.ne_nil
  have hlines : Style.isMultiline k = false := by
    rw [Style.isMultiline, List.any_eq_false]
    intro c hc
    rw [Style.isBreak_of_isSimple (h.isKey.isSimple c hc)]
    exact Bool.false_ne_true
  have hshort : decide (maxSimpleKey < Tag.str.short.length + k.length) = false :=
    decide_eq_false (Nat.not_lt.mpr h.short)
  have hchoice : Style.choose true true k = .plain := by
    rw [Style.choose, h.allowsPlain, hempty]
    rfl
  simp only [simpleKey?, scalarForm?, hempty, hlines, hshort, Bool.or_self, Bool.false_eq_true,
    if_false, Style.key, h.tag, decide_true, hchoice]

end IsName

/-! ## Fields -/

theorem written_scalar (h : scalarForm? v = some (tag, t)) (indent column : Nat) (sameLine : Bool) :
    written indent column sameLine v =
      " " ++ Style.value (Tag.ofPlain t = tag) (indent + 2) (column + 1) t ++ "\n" := by
  cases v with
  | seq | pair | map | set | bytes => cases h
  | _ =>
    unfold written
    rw [h]

/-- A name with a value that is written as a scalar and means the same as one. -/
structure Field where
  name : Text
  value : Yaml
  tag : Tag
  text : Text
  isName : IsName name
  /-- The value is written with this tag and this text. -/
  form : scalarForm? value = some (tag, text)
  meaning : ofScalar tag text = .ok value
  /-- In quotes it is taken for a string. -/
  quoted : Style.choose (Tag.ofPlain text = tag) false text ≠ .plain → tag = .str

theorem ne_nil_of_scalarForm? (h : scalarForm? v = some (.null, t)) : t ≠ [] := by
  cases v with
  | null =>
    cases h
    decide
  | _ => cases h

namespace Field

/-- The entry of a mapping. -/
def entry (f : Field) : Yaml × Yaml := (.str f.name, f.value)

/-- The line of a field. -/
def line (f : Field) : Token.Line where
  key := f.name
  isPlain := Tag.ofPlain f.text = f.tag
  text := f.text
  isKey := f.isName.isKey
  visible h ht := by
    have hform := f.form
    have htag := of_decide_eq_true h
    rw [ht] at htag hform
    rw [← htag] at hform
    exact ne_nil_of_scalarForm? hform rfl

theorem nodes_line (f : Field) : f.line.nodes = (.scalar .str f.name, .scalar f.tag f.text) := by
  have htag : Node.Reading.scalarTag f.text
      (Style.choose (Tag.ofPlain f.text = f.tag) false f.text = .plain) none = f.tag := by
    by_cases hplain : Style.choose (Tag.ofPlain f.text = f.tag) false f.text = .plain
    · have hspec := Style.choose_spec (Tag.ofPlain f.text = f.tag) false f.text
      rw [hplain] at hspec ⊢
      exact of_decide_eq_true hspec.1
    · rw [decide_eq_false hplain, f.quoted hplain]
      rfl
  rw [Token.Line.nodes]
  show (Node.scalar (.ofPlain f.name) f.name, Node.scalar _ f.text) = _
  rw [f.isName.tag]
  exact congrArg (fun tag ↦ (_, Node.scalar tag f.text)) htag

theorem writtenEntry_eq (f : Field) : writtenEntry 0 f.entry = f.line.written := by
  have hvalue := written_scalar f.form 0 (f.name.length + 1) false
  rw [entry, writtenEntry, f.isName.simpleKey?_eq]
  dsimp only
  rw [Nat.zero_add, hvalue, Token.Line.written, ← List.append_assoc, ← List.append_assoc]
  rfl

theorem writtenEntries_eq (fields : List Field) :
    writtenEntries 0 (fields.map entry) = (fields.map line).flatMap Token.Line.written := by
  induction fields with
  | nil => rfl
  | cons f fields ih =>
    rw [List.map_cons, List.map_cons, List.flatMap_cons, writtenEntries, ih, writtenEntry_eq]
    rfl

theorem write_eq {fields : List Field} (h : fields ≠ []) :
    write (fields.map entry) = (fields.map line).flatMap Token.Line.written := by
  have hempty : (fields.map entry).isEmpty = false := by
    rw [List.isEmpty_map]
    exact List.isEmpty_eq_false_iff.mpr h
  rw [write, hempty, if_neg Bool.false_ne_true, writtenEntries_eq]

theorem entryMeanings_nodes (fields : List Field) :
    Node.entryMeanings (fields.map fun f ↦ f.line.nodes) = fields.map fun f ↦
      ⟨.str, .pure (.str f.name), .pure (.str f.name), ⟨.pure f.value, none, none, none⟩⟩ := by
  induction fields with
  | nil => rfl
  | cons f fields ih =>
    rw [List.map_cons, List.map_cons, nodes_line, Node.entryMeanings, ih,
      ← Denoted.ofText_of_ofScalar f.meaning]
    rfl

theorem splitMerges_fields (fields : List Field) :
    Node.splitMerges (fields.map fun f ↦
      ⟨.str, .pure (.str f.name), .pure (.str f.name), ⟨.pure f.value, none, none, none⟩⟩) =
      some ([], fields.map fun f ↦ (.pure (.str f.name), .pure f.value)) := by
  induction fields with
  | nil => rfl
  | cons f fields ih =>
    rw [List.map_cons, Node.splitMerges, ih]
    rfl

theorem denote_nodes {fields : List Field} (h : (fields.map name).Nodup) :
    (Node.map .map (fields.map fun f ↦ f.line.nodes)).denote = .ok (.map (fields.map entry)) := by
  have hdenoted : (Node.meaning .map (.map .map (fields.map fun f ↦ f.line.nodes))).denoted =
      .map ((fields.map entry).map fun e ↦ (.pure e.1, .pure e.2)) := by
    rw [Node.meaning]
    simp only [entryMeanings_nodes, splitMerges_fields, List.map_map]
    rfl
  have hkeys : ∀ e ∈ fields.map entry, Denoted.isNoKey e.1 = false := by
    intro e he
    obtain ⟨f, -, rfl⟩ := List.mem_map.mp he
    rfl
  have hnew : (fields.map entry).Pairwise fun d e ↦ sameKey d.1 e.1 = false := by
    rw [List.pairwise_map]
    exact (List.pairwise_map.mp h).imp fun hne ↦ decide_eq_false hne
  show (Node.meaning .map (.map .map _)).denoted.result = _
  rw [hdenoted, Denoted.result_map hkeys, entriesOf_of_pairwise hnew]

end Field

/-- **A mapping of scalars reads back as itself**, when no name comes twice. -/
theorem read_write {fields : List Field} (h : (fields.map Field.name).Nodup) :
    read (write (fields.map Field.entry)) = .ok (.map (fields.map Field.entry)) := by
  by_cases hne : fields = []
  · subst hne
    rfl
  · have hlines : fields.map Field.line ≠ [] := fun h ↦ hne (List.map_eq_nil_iff.mp h)
    have hdocument := Node.document_lines (fields.map Field.line)
    rw [List.map_map] at hdocument
    rw [read, Field.write_eq hne, Token.all_lines hlines, hdocument]
    exact Field.denote_nodes h

theorem printed_write (fields : List Field) : Style.Printed (write (fields.map Field.entry)) := by
  by_cases hne : fields = []
  · subst hne
    decide
  · rw [Field.write_eq hne]
    exact .flatMap fun l _ ↦ l.printed_written

end RouteCatalog.Yaml
