import RouteCatalog.Proofs.Catalog.Reconcile
import RouteCatalog.Proofs.DocComment.Spread
import RouteCatalog.Proofs.Route.Spread

/-!
# Blank lines between endpoints

Line feeds that are put at the start of a line, outside comments and quoted paths, neither make nor
end a declaration or a comment, nor do they give a declaration another comment. So the endpoints of
a file stay as they are, but those that start behind the line feeds stand as many lines further down
(`Dialect.extract_insert`). A catalog is compared without the lines, so it says the same.
-/

namespace RouteCatalog

open Text

/-! ## Captured paths -/

namespace Declaration

variable {before : Option CodePoint} {t rest : Text} {d : Declaration}

/-- A path between two quotation marks, the text after the second and the text that holds both. -/
def Quotes (t path rest : Text) : Prop :=
  ∃ mark mark', isQuote mark = true ∧ isQuote mark' = true ∧ mark :: (path ++ mark' :: rest) <:+ t

theorem quotes_fluentCall (h : fluentCall before t = some (d, rest)) : Quotes t d.path rest := by
  rw [fluentCall_eq_calledVerb?] at h
  split at h
  · cases h
  · obtain ⟨mark, mark', hmark, hmark', -, hskips⟩ := exists_of_calledVerb? h
    exact ⟨mark, mark', hmark, hmark', hskips.isSuffix⟩

theorem quotes_addressedRegistration (h : addressedRegistration before t = some (d, rest)) :
    Quotes t d.path rest := by
  obtain ⟨⟨_, opened⟩, hopened, h⟩ := Option.bind_eq_some_iff.mp h
  obtain ⟨⟨verb, called⟩, hverb, h⟩ := Option.bind_eq_some_iff.mp h
  obtain ⟨⟨path, rest⟩, hpath, heq⟩ := Option.bind_eq_some_iff.mp h
  cases heq
  obtain ⟨field, hfield, before, hfound⟩ := Pattern.exists_of_first? hpath
  obtain ⟨mark, mark', hmark, hmark', -, hskips⟩ := exists_of_urlField hfound
  exact ⟨mark, mark', hmark, hmark', hskips.isSuffix.trans (hfield.trans
    ((leavesEnd_methodField.first? hverb).trans (leavesEnd_registrationOpening hopened)))⟩

theorem decoratorOpening_isSuffix {verb : Text} (h : decoratorOpening t = some (verb, rest)) :
    rest <:+ t ∧ rest.length < t.length := by
  obtain ⟨named, hat, h⟩ := Option.bind_eq_some_iff.mp h
  obtain ⟨⟨name, called⟩, hname, h⟩ := Option.bind_eq_some_iff.mp h
  obtain ⟨opened, hopened, heq⟩ := Option.bind_eq_some_iff.mp h
  cases heq
  obtain ⟨_, -, hdrop⟩ := List.exists_of_findSome?_eq_some hname
  obtain ⟨_, hcalled, heq⟩ := Option.map_eq_some_iff.mp hdrop
  cases heq
  have hsuffix := (dropSpaced?_isSuffix hopened).trans (Text.dropLiteral?_isSuffix hcalled)
  refine ⟨hsuffix.trans (Text.dropLiteral?_isSuffix hat), ?_⟩
  rw [Text.dropLiteral?_eq_some_iff.mp hat]
  exact Nat.lt_succ_of_le hsuffix.length_le

theorem quotes_addressedDecorator (h : addressedDecorator before t = some (d, rest)) :
    Quotes t d.path rest := by
  obtain ⟨⟨verb, opened⟩, hopened, h⟩ := Option.bind_eq_some_iff.mp h
  obtain ⟨⟨path, rest⟩, hpath, heq⟩ := Option.bind_eq_some_iff.mp h
  cases heq
  obtain ⟨mark, mark', hmark, hmark', htrim⟩ := exists_of_quoted? hpath
  exact ⟨mark, mark', hmark, hmark', htrim ▸ (Text.trimLeft_isSuffix opened).trans
    (decoratorOpening_isSuffix hopened).1⟩

theorem decorator_isSuffix (h : decorator before t = some (d, rest)) :
    rest <:+ t ∧ rest.length < t.length := by
  rw [closedBy_decorator before t] at h
  cases hfound : addressedDecorator before t with
  | none =>
    rw [hfound] at h
    obtain ⟨⟨verb, opened⟩, hopened, h⟩ := Option.bind_eq_some_iff.mp h
    obtain ⟨closed, hclosed, heq⟩ := Option.bind_eq_some_iff.mp h
    cases heq
    have hsuffix := (dropSpaced?_isSuffix hclosed).trans (Text.trimLeft_isSuffix opened)
    obtain ⟨hleft, hshort⟩ := decoratorOpening_isSuffix hopened
    exact ⟨hsuffix.trans hleft, hsuffix.length_le.trans_lt hshort⟩
  | some found =>
    rw [hfound] at h
    obtain ⟨closed, hclosed, heq⟩ := Option.map_eq_some_iff.mp h
    cases heq
    obtain ⟨⟨verb, opened⟩, hopened, haddressed⟩ := Option.bind_eq_some_iff.mp hfound
    obtain ⟨⟨path, addressed⟩, hpath, heq⟩ := Option.bind_eq_some_iff.mp haddressed
    cases heq
    have hsuffix := (dropSpaced?_isSuffix hclosed).trans
      ((quoted?_eq_some hpath).2.trans (Text.trimLeft_isSuffix opened))
    obtain ⟨hleft, hshort⟩ := decoratorOpening_isSuffix hopened
    exact ⟨hsuffix.trans hleft, hsuffix.length_le.trans_lt hshort⟩

/-- The offsets of the first character of the path of a declaration and of the quotation mark that
closes it. The declaration is given by its offset and by its front, which ends with this mark. -/
def pathSpan? (front : Pattern Declaration) (content : Text) (start : Nat) : Option (Nat × Nat) :=
  (front (content.take start).getLast? (content.drop start)).map fun (d, rest) ↦
    let close := content.length - rest.length - 1
    (close - d.path.length, close)

/-- The span of a path is what its name says: the path starts and ends there, between two quotation
marks. -/
theorem drop_of_pathSpan? {front : Pattern Declaration} {content : Text} {start : Nat}
    {span : Nat × Nat}
    (hfront : ∀ {before t d rest}, front before t = some (d, rest) → Quotes t d.path rest)
    (h : span ∈ pathSpan? front content start) :
    ∃ d rest, front (content.take start).getLast? (content.drop start) = some (d, rest) ∧
      span.2 = span.1 + d.path.length ∧ ∃ mark mark', isQuote mark = true ∧ isQuote mark' = true ∧
        content.drop (span.1 - 1) = mark :: (d.path ++ mark' :: content.drop (span.2 + 1)) := by
  obtain ⟨⟨d, rest⟩, hfound, rfl⟩ := Option.map_eq_some_iff.mp h
  obtain ⟨mark, mark', hmark, hmark', hsuffix⟩ := hfront hfound
  obtain ⟨x, hx⟩ := hsuffix.trans (List.drop_suffix start content)
  have hlength : x.length + (1 + d.path.length + 1 + rest.length) = content.length := by
    rw [← hx]
    simp only [List.length_append, List.length_cons]
    omega
  refine ⟨d, rest, hfound, ?_, mark, mark', hmark, hmark', ?_⟩
  · dsimp only
    omega
  · have hfirst : content.length - rest.length - 1 - d.path.length - 1 = x.length := by omega
    have hlast : content.length - rest.length - 1 + 1 =
        (x ++ mark :: (d.path ++ [mark'])).length := by
      simp only [List.length_append, List.length_cons, List.length_nil]
      omega
    have hwhole : content = (x ++ mark :: (d.path ++ [mark'])) ++ rest := by
      rw [← hx]
      simp only [List.append_assoc, List.cons_append, List.nil_append]
    dsimp only
    rw [hfirst, hlast]
    conv_rhs => rw [hwhole, List.drop_left]
    rw [← hx, List.drop_left]

end Declaration

/-! ## Built-in dialects -/

namespace Dialect

open Declaration

/-- The pattern, the default path and the front of a built-in dialect. The front is the pattern for
what stands in a declaration up to the quotation mark that closes its path. -/
inductive Addressed : Dialect → Pattern Declaration → Text → Pattern Declaration → Prop
  /-- Nothing of a fluent call that is recognised stands behind its path. -/
  | express : Addressed express fluentCall [] fluentCall
  /-- A registration without its closing. -/
  | fastify : Addressed fastify registration [] addressedRegistration
  /-- A decorator without its closing parenthesis. -/
  | nestjs : Addressed nestjs decorator "/" addressedDecorator

variable {d : Dialect} {pattern front : Pattern Declaration} {defaultPath content : Text}
  {o : Occurrence Declaration}

theorem Grammar.leavesEnd (hgrammar : Grammar d pattern defaultPath) : pattern.LeavesEnd := by
  intro before t declaration rest h
  cases hgrammar with
  | express =>
    rw [fluentCall_eq_calledVerb?] at h
    split at h
    · cases h
    · exact selfDelimiting_calledVerb?.leavesEnd h
  | fastify => exact leavesEnd_registration h
  | nestjs => exact (decorator_isSuffix h).1

theorem Grammar.shortens (hgrammar : Grammar d pattern defaultPath) {before : Option CodePoint}
    {t rest : Text} {declaration : Declaration} (h : pattern before t = some (declaration, rest)) :
    rest.length < t.length := by
  cases hgrammar with
  | express =>
    rw [fluentCall_eq_calledVerb?] at h
    split at h
    · cases h
    · exact selfDelimiting_calledVerb?.length_lt h
  | fastify => exact registration_shortens h
  | nestjs => exact (decorator_isSuffix h).2

namespace Addressed

theorem exists_front (hgrammar : Grammar d pattern defaultPath) :
    ∃ front, Addressed d pattern defaultPath front := by
  cases hgrammar with
  | express => exact ⟨_, .express⟩
  | fastify => exact ⟨_, .fastify⟩
  | nestjs => exact ⟨_, .nestjs⟩

variable (haddressed : Addressed d pattern defaultPath front)
include haddressed

theorem grammar : Grammar d pattern defaultPath := by
  cases haddressed with
  | express => exact .express
  | fastify => exact .fastify
  | nestjs => exact .nestjs

theorem spreads : pattern.Spreads (CutBy front) := by
  cases haddressed with
  | express => exact spreads_fluentCall
  | fastify => exact spreads_registration
  | nestjs => exact spreads_decorator

theorem quotes {before : Option CodePoint} {t rest : Text} {declaration : Declaration}
    (h : front before t = some (declaration, rest)) : Quotes t declaration.path rest := by
  cases haddressed with
  | express => exact quotes_fluentCall h
  | fastify => exact quotes_addressedRegistration h
  | nestjs => exact quotes_addressedDecorator h

theorem exists_closedBy : ∃ close bare, ClosedBy pattern front close bare ∧
    ∀ {t declaration rest}, bare t = some (declaration, rest) → declaration.path = [] := by
  cases haddressed with
  | express => exact ⟨_, _, closedBy_fluentCall, fun h ↦ nomatch h⟩
  | fastify => exact ⟨_, _, closedBy_registration, fun h ↦ nomatch h⟩
  | nestjs =>
    refine ⟨_, _, closedBy_decorator, fun h ↦ ?_⟩
    obtain ⟨⟨verb, opened⟩, -, h⟩ := Option.bind_eq_some_iff.mp h
    obtain ⟨closed, -, heq⟩ := Option.bind_eq_some_iff.mp h
    cases heq
    rfl

theorem at?_of_mem (ho : o ∈ pattern.occurrences content) :
    pattern.at? content o.start = some o :=
  Pattern.at?_of_mem_occurrences haddressed.grammar.leavesEnd haddressed.grammar.shortens ho

/-- **The span of a path is the place where the path of the declaration is written**, between two
quotation marks. Only a declaration without a path may have none. -/
theorem captures (ho : o ∈ pattern.occurrences content) :
    (∀ span ∈ pathSpan? front content o.start, span.2 = span.1 + o.value.path.length ∧
      ∃ mark mark', isQuote mark = true ∧ isQuote mark' = true ∧
        content.drop (span.1 - 1) =
          mark :: (o.value.path ++ mark' :: content.drop (span.2 + 1))) ∧
      (o.value.path ≠ [] → ∃ span, span ∈ pathSpan? front content o.start) := by
  obtain ⟨close, bare, hclosed, hbare⟩ := haddressed.exists_closedBy
  obtain ⟨-, -, hfound⟩ :=
    Pattern.at?_eq_some haddressed.grammar.leavesEnd (haddressed.at?_of_mem ho)
  rw [hclosed] at hfound
  constructor
  · intro span hspan
    obtain ⟨declaration, rest, hfront, hlength, hplace⟩ :=
      drop_of_pathSpan? haddressed.quotes hspan
    rw [hfront] at hfound
    obtain ⟨_, -, heq⟩ := Option.map_eq_some_iff.mp hfound
    obtain ⟨rfl, -⟩ := Prod.mk.inj heq
    exact ⟨hlength, hplace⟩
  · intro hpath
    cases hfront : front (content.take o.start).getLast? (content.drop o.start) with
    | none =>
      rw [hfront] at hfound
      exact absurd (hbare hfound) hpath
    | some found => exact ⟨_, Option.map_eq_some_iff.mpr ⟨found, hfront, rfl⟩⟩

end Addressed

/-! ## Endpoints after blank lines are put in -/

/-- The endpoint of a declaration after `k` lines are put in at a place: it stands as many lines
further down if the declaration starts there or later, and nothing else about it changes. -/
def pushDown (place k : Nat) (o : Occurrence Declaration) (e : Endpoint) : Endpoint :=
  if place ≤ o.start then { e with line := e.line.map (· + (k : Int)) } else e

theorem exists_line_pushDown (place k : Nat) (o : Occurrence Declaration) (e : Endpoint) :
    ∃ line, pushDown place k o e = { e with line := line } := by
  rw [pushDown]
  split
  · exact ⟨_, rfl⟩
  · exact ⟨e.line, rfl⟩

theorem forall₂_zipWith_pushDown (place k : Nat)
    {R : Occurrence Declaration → Endpoint → Prop} {os : List (Occurrence Declaration)}
    {endpoints : List Endpoint} (h : List.Forall₂ R os endpoints) :
    List.Forall₂ (fun e' e ↦ ∃ line, e' = { e with line := line })
      (List.zipWith (pushDown place k) os endpoints) endpoints := by
  induction h with
  | nil => exact .nil
  | cons _ _ ih => exact .cons (exists_line_pushDown place k _ _) ih

theorem lineAt_insert (head tail : Text) (k place : Nat) :
    lineAt (head ++ (lineFeeds k ++ tail)) (below head.length k place) =
      lineAt (head ++ tail) place + if head.length ≤ place then k else 0 := by
  have hlength : (lineFeeds k).length = k := List.length_replicate
  by_cases h : head.length ≤ place
  · obtain ⟨i, rfl⟩ := Nat.exists_eq_add_of_le h
    rw [if_pos h, below_of_le k h, lineAt, lineAt, Nat.add_assoc, List.take_length_add_append,
      List.take_length_add_append, Nat.add_comm i k, List.take_append, hlength,
      Nat.add_sub_cancel_left, List.take_of_length_le (by omega), List.count_append,
      List.count_append, List.count_append, lineFeeds, List.count_replicate_self]
    omega
  · have hle := (Nat.lt_of_not_le h).le
    rw [if_neg h, below_of_lt k (Nat.lt_of_not_le h), lineAt, lineAt,
      List.take_append_of_le_length hle, List.take_append_of_le_length hle]

section Insert

variable {name file head tail : Text} {k : Nat}
  (hline : head = [] ∨ head.getLast? = some (CodePoint.ofChar '\n'))
  (hcomments : ∀ b ∈ DocComment.block.occurrences (head ++ tail),
    ¬ (b.start < head.length ∧ head.length < b.stop))
include hline

/-- The declarations of a text, when line feeds are put in outside their paths. -/
theorem Addressed.occurrences_insert (haddressed : Addressed d pattern defaultPath front)
    (hpaths : ∀ o ∈ pattern.occurrences (head ++ tail),
      ∀ span ∈ pathSpan? front (head ++ tail) o.start,
        ¬ (span.1 < head.length ∧ head.length ≤ span.2)) :
    pattern.occurrences (head ++ (lineFeeds k ++ tail)) =
      (pattern.occurrences (head ++ tail)).map (Pattern.moved head.length k) := by
  refine haddressed.spreads.occurrences_insert haddressed.grammar.leavesEnd
    haddressed.grammar.shortens hline ?_
  rintro o ho hstart ⟨⟨declaration, rest⟩, hfound, hlt, hle⟩
  refine hpaths o ho _ (Option.map_eq_some_iff.mpr ⟨_, hfound, rfl⟩) ?_
  dsimp only at hlt hle ⊢
  rw [List.length_append]
  omega

include hcomments

theorem endpoint?_insert (ho : o.start ≤ (head ++ tail).length) :
    endpoint? name defaultPath file (head ++ (lineFeeds k ++ tail))
        (Pattern.moved head.length k o) =
      (endpoint? name defaultPath file (head ++ tail) o).map
        (Option.map (pushDown head.length k o)) := by
  have hdocumentation : documentationAt (head ++ (lineFeeds k ++ tail))
      (below head.length k o.start) = documentationAt (head ++ tail) o.start := by
    rw [documentationAt, documentationAt, DocComment.lastBefore_insert hline hcomments ho]
  rw [endpoint?, endpoint?, Pattern.moved_value, Pattern.moved_start, hdocumentation,
    lineAt_insert]
  cases target? defaultPath o.value with
  | none => rfl
  | some target =>
    cases documentationAt (head ++ tail) o.start with
    | error c => rfl
    | ok doc =>
      refine congrArg (fun e ↦ Except.ok (some e)) ?_
      rw [pushDown]
      split
      · simp
      · simp

end Insert

theorem filterMap_mapM_of_forall {α β ε : Type} {f f' : α → Except ε (Option β)} {g : α → β → β}
    {as : List α} (hsome : ∀ a ∈ as, f a ≠ .ok none)
    (h : ∀ a ∈ as, f' a = (f a).map (Option.map (g a))) :
    (as.mapM f').map (·.filterMap id) =
      ((as.mapM f).map (·.filterMap id)).map (List.zipWith g as) := by
  induction as with
  | nil => rfl
  | cons a as ih =>
    obtain ⟨hfirst, hrest⟩ := List.forall_mem_cons.mp h
    obtain ⟨hsome, hsomes⟩ := List.forall_mem_cons.mp hsome
    have ih := ih hsomes hrest
    rw [List.mapM_cons, List.mapM_cons, hfirst]
    cases hfound : f a with
    | error e => rfl
    | ok found =>
      cases found with
      | none => exact absurd hfound hsome
      | some b =>
        cases hall' : as.mapM f' <;> cases hall : as.mapM f <;> rw [hall, hall'] at ih
        · cases ih
          rfl
        · cases ih
        · cases ih
        · exact congrArg (fun bs ↦ Except.ok (g a b :: bs)) (Except.ok.inj ih)

theorem extractWith_eq_mapError (name file content : Text) :
    extractWith name pattern defaultPath file content =
      (((pattern.occurrences content).mapM (endpoint? name defaultPath file content)).map
        (·.filterMap id)).mapError .tooDeep := by
  rw [extractWith]
  cases (pattern.occurrences content).mapM (endpoint? name defaultPath file content) <;> rfl

/-- The endpoints of a file report its declarations, when they are extracted. -/
theorem Grammar.forall₂_reports (hgrammar : Grammar d pattern defaultPath) {file : Text}
    {endpoints : List Endpoint} (h : d.extract file content = .ok endpoints) :
    List.Forall₂ (Reports d.name defaultPath file content) (pattern.occurrences content)
      endpoints := by
  obtain ⟨endpoints', hendpoints', hall⟩ := hgrammar.extract_of_shallow file fun o ho hdeep ↦ by
    obtain ⟨failure, hfailure⟩ := hgrammar.extract_of_tooDeepAt file ho hdeep
    rw [h] at hfailure
    cases hfailure
  rw [h] at hendpoints'
  cases hendpoints'
  exact hall

/-- **Blank lines move endpoints without changing them.** Line feeds that are put into a text at its
start or just after a line feed, neither inside a comment nor inside the path of a declaration,
leave the endpoints that a built-in dialect extracts as they are, in their order, but for the lines
of the declarations that start at that place or after it, which grow by as much; and when the one
extraction fails, so does the other. Each endpoint keeps the form in which it is compared, so as
many endpoints as before are unchanged with respect to any earlier catalog. The place right before
the quotation mark that closes a path is inside it, too: what is put in there is put into the
path. -/
theorem extract_insert (haddressed : Addressed d pattern defaultPath front)
    {file head tail : Text} (hline : head = [] ∨ head.getLast? = some (CodePoint.ofChar '\n'))
    (hcomments : ∀ b ∈ DocComment.block.occurrences (head ++ tail),
      ¬ (b.start < head.length ∧ head.length < b.stop))
    (hpaths : ∀ o ∈ pattern.occurrences (head ++ tail),
      ∀ span ∈ pathSpan? front (head ++ tail) o.start,
        ¬ (span.1 < head.length ∧ head.length ≤ span.2)) (k : Nat) :
    d.extract file (head ++ (lineFeeds k ++ tail)) =
        (d.extract file (head ++ tail)).map
          (List.zipWith (pushDown head.length k) (pattern.occurrences (head ++ tail))) ∧
      ∀ endpoints below, d.extract file (head ++ tail) = .ok endpoints →
        d.extract file (head ++ (lineFeeds k ++ tail)) = .ok below →
          List.Forall₂ (Reports d.name defaultPath file (head ++ tail))
              (pattern.occurrences (head ++ tail)) endpoints ∧
            List.Forall₂ (fun e' e ↦ Reconcile.comparisonForm e'.members =
              Reconcile.comparisonForm e.members) below endpoints ∧
            ∀ previous, Reconcile.countUnchanged below previous =
              Reconcile.countUnchanged endpoints previous := by
  have hextract : d.extract file (head ++ (lineFeeds k ++ tail)) =
      (d.extract file (head ++ tail)).map
        (List.zipWith (pushDown head.length k) (pattern.occurrences (head ++ tail))) := by
    have hsome : ∀ o ∈ pattern.occurrences (head ++ tail),
        endpoint? d.name defaultPath file (head ++ tail) o ≠ .ok none := by
      intro o ho hnone
      obtain ⟨verb, path, htarget⟩ := haddressed.grammar.exists_target_of_mem ho
      rw [endpoint?, htarget] at hnone
      cases hdoc : documentationAt (head ++ tail) o.start <;> rw [hdoc] at hnone <;> cases hnone
    have hmoved : ∀ o ∈ pattern.occurrences (head ++ tail),
        (endpoint? d.name defaultPath file (head ++ (lineFeeds k ++ tail)) ∘
            Pattern.moved head.length k) o =
          (endpoint? d.name defaultPath file (head ++ tail) o).map
            (Option.map (pushDown head.length k o)) := fun o ho ↦
      endpoint?_insert hline hcomments (Pattern.exists_of_mem_occurrences ho).1.le
    rw [haddressed.grammar.extract_eq, haddressed.grammar.extract_eq, extractWith_eq_mapError,
      extractWith_eq_mapError, haddressed.occurrences_insert hline hpaths, List.mapM_map,
      filterMap_mapM_of_forall hsome hmoved]
    cases (pattern.occurrences (head ++ tail)).mapM
      (endpoint? d.name defaultPath file (head ++ tail)) <;> rfl
  refine ⟨hextract, fun endpoints below hendpoints hbelow ↦ ?_⟩
  have hreports := haddressed.grammar.forall₂_reports hendpoints
  rw [hextract, hendpoints] at hbelow
  cases hbelow
  have hlines := forall₂_zipWith_pushDown head.length k hreports
  refine ⟨hreports, List.Forall₂.imp (fun e' e h ↦ ?_) hlines, fun previous ↦ ?_⟩
  · obtain ⟨line, rfl⟩ := h
    exact Reconcile.comparisonForm_members_of_line e line
  · exact Reconcile.countUnchanged_eq_of_lines hlines previous

private def callHead : Text := "/** A. */\napp.get(\n"

private def callTail : Text := "'/a', f)\n/** B. */\napp.put('/b', g)"

private def firstCall : Endpoint :=
  ⟨.get, "/a", "express", "a.js", some "A.", [], .null, none, some 2⟩

private def secondCall (line : Int) : Endpoint :=
  ⟨.put, "/b", "express", "a.js", some "B.", [], .null, none, some line⟩

/-- Two line feeds are put in between the parenthesis of a call and its path. The call that starts
before them keeps its line, the one behind them stands two lines further down. -/
theorem extract_insert_within_call :
    express.extract "a.js" (callHead ++ callTail) = .ok [firstCall, secondCall 5] ∧
      express.extract "a.js" (callHead ++ (lineFeeds 2 ++ callTail)) =
        .ok [firstCall, secondCall 7] ∧
      ∀ previous, Reconcile.countUnchanged [firstCall, secondCall 7] previous =
        Reconcile.countUnchanged [firstCall, secondCall 5] previous := by
  have hextract : express.extract "a.js" (callHead ++ callTail) =
      .ok [firstCall, secondCall 5] := rfl
  have hinsert : express.extract "a.js" (callHead ++ (lineFeeds 2 ++ callTail)) = _ ∧ _ :=
    extract_insert .express (.inr rfl) (by decide +kernel) (by decide +kernel) 2
  have hmoved : express.extract "a.js" (callHead ++ (lineFeeds 2 ++ callTail)) =
      .ok [firstCall, secondCall 7] := hinsert.1.trans (by rw [hextract]; rfl)
  exact ⟨hextract, hmoved, (hinsert.2 _ _ hextract hmoved).2.2⟩

end Dialect

end RouteCatalog
