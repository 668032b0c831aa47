import RouteCatalog.Proofs.DocComment.Shape
import RouteCatalog.Proofs.Scan.Documented

/-!
# What scans report

Every endpoint that a scan with the built-in dialects reports is well formed, whatever the sources
hold: its path, its description, the names of its parameters and its status have their shapes
(`Dialect.Reports.wellFormed`). It stands where it says: in a file that the walk has listed, on a
line of that file, found by the dialect that it names. The endpoints are those of one file after the
other, of one dialect after the other, and in the order of their declarations
(`Scan.scan_reports_well_formed`).
-/

namespace RouteCatalog

/-- What an endpoint says has the shape that its readers rely on. -/
structure Endpoint.WellFormed (e : Endpoint) : Prop where
  path_ne_nil : e.path ≠ []
  unquoted_path : Declaration.Unquoted e.path
  documentation : Documentation.WellFormed ⟨e.description, e.parameters, e.requestBody, e.response⟩

namespace Dialect

variable {d : Dialect} {pattern : Pattern Declaration} {name defaultPath file content : Text}
  {o : Occurrence Declaration} {e : Endpoint}

theorem wellFormed_lenientAt (content : Text) (offset : Nat) :
    (lenientAt content offset).WellFormed := by
  rw [lenientAt]
  split
  · constructor <;> intro _ h <;> cases h
  · exact DocComment.wellFormed_lenient _

/-- **An endpoint that reports a declaration is well formed.** -/
theorem Reports.wellFormed (hgrammar : Grammar d pattern defaultPath)
    (ho : o ∈ pattern.occurrences content) (h : Reports name defaultPath file content o e) :
    e.WellFormed := by
  obtain ⟨-, before, rest, hfound⟩ := Pattern.exists_of_mem_occurrences ho
  obtain ⟨verb, path, htarget⟩ := hgrammar.exists_target hfound
  obtain ⟨-, hne, hpath⟩ := target?_eq_some htarget
  refine ⟨?_, ?_, ?_⟩
  · rwa [h.path, ← hpath]
  · rw [h.path]
    split
    · cases hgrammar <;> decide
    · exact hgrammar.unquoted hfound
  · rw [h.documentation]
    exact wellFormed_lenientAt content o.start

end Dialect

namespace Scan

open Dialect

variable {s : Store} {d : Dialect} {p : Path} {root content : Text} {es : List Endpoint}

/-- What a dialect reports in the file at a path. -/
def reportedAt (s : Store) (p : Path) (d : Dialect) : List Endpoint :=
  (turnsAt s [d] p).flatMap Turn.endpoints

/-- What a dialect reports in a file stands in the file, in the order of the declarations. -/
structure Orderly (p : Path) (content : Text) (d : Dialect) (es : List Endpoint) : Prop where
  wellFormed : ∀ e ∈ es, e.WellFormed
  framework : ∀ e ∈ es, e.framework = d.name
  /-- The dialect of controller classes reports from TypeScript files only. -/
  suffix : ∀ e ∈ es, e.framework = "nestjs" → p.suffix = ".ts"
  sourceFile : ∀ e ∈ es, e.sourceFile = p.toText
  /-- Every endpoint stands on a line of the file. -/
  line : ∀ e ∈ es, ∃ n : Nat, e.line = some (n : Int) ∧ 1 ≤ n ∧
    n ≤ 1 + content.count (CodePoint.ofChar '\n')
  /-- No endpoint stands on an earlier line than one before it. -/
  lines : es.Pairwise fun e e' ↦ ∀ n ∈ e.line, ∀ n' ∈ e'.line, n ≤ n'
  /-- The endpoints report declarations that start one after the other. -/
  positions : ∃ pattern defaultPath os, Grammar d pattern defaultPath ∧
    os.Sublist (pattern.occurrences content) ∧ os.Pairwise (fun o o' ↦ o.start < o'.start) ∧
      List.Forall₂ (Reports d.name defaultPath p.toText content) os es

section Lists

variable {α β : Type} {R : α → β → Prop} {as : List α} {bs : List β}

theorem exists_of_forall₂ (h : List.Forall₂ R as bs) {b : β} (hb : b ∈ bs) : ∃ a ∈ as, R a b := by
  induction h with
  | nil => cases hb
  | cons hfirst _ ih =>
    rcases List.mem_cons.mp hb with rfl | hb
    · exact ⟨_, List.mem_cons_self, hfirst⟩
    · obtain ⟨a, ha, hab⟩ := ih hb
      exact ⟨a, List.mem_cons_of_mem _ ha, hab⟩

theorem pairwise_of_forall₂ {S : α → α → Prop} {T : β → β → Prop} (h : List.Forall₂ R as bs)
    (hpairwise : as.Pairwise S) (himp : ∀ {a a' b b'}, R a b → R a' b' → S a a' → T b b') :
    bs.Pairwise T := by
  induction h with
  | nil => exact List.Pairwise.nil
  | cons hfirst hrest ih =>
    obtain ⟨hbefore, hpairwise⟩ := List.pairwise_cons.mp hpairwise
    refine List.pairwise_cons.mpr ⟨fun b hb ↦ ?_, ih hpairwise⟩
    obtain ⟨a, ha, hab⟩ := exists_of_forall₂ hrest hb
    exact himp hfirst hab (hbefore a ha)

end Lists

/-- Endpoints that report declarations of a file one after the other stand there. -/
theorem orderly_of_reports {pattern : Pattern Declaration} {defaultPath : Text}
    {os : List (Occurrence Declaration)} (hgrammar : Grammar d pattern defaultPath)
    (hsuffix : es ≠ [] → d.name = "nestjs" → p.suffix = ".ts")
    (hos : os.Sublist (pattern.occurrences content))
    (h : List.Forall₂ (Reports d.name defaultPath p.toText content) os es) :
    Orderly p content d es := by
  have hreports : ∀ e ∈ es, ∃ o ∈ os, Reports d.name defaultPath p.toText content o e :=
    fun e he ↦ exists_of_forall₂ h he
  have hstarts := (pattern.pairwise_start 0 0 none content).sublist hos
  refine ⟨fun e he ↦ ?_, fun e he ↦ ?_, fun e he hname ↦ ?_, fun e he ↦ ?_, fun e he ↦ ?_, ?_,
    pattern, defaultPath, os, hgrammar, hos, hstarts, h⟩
  · obtain ⟨o, ho, hoe⟩ := hreports e he
    exact hoe.wellFormed hgrammar (hos.subset ho)
  · obtain ⟨o, -, hoe⟩ := hreports e he
    exact hoe.framework
  · obtain ⟨o, -, hoe⟩ := hreports e he
    exact hsuffix (List.ne_nil_of_mem he) (hoe.framework.symm.trans hname)
  · obtain ⟨o, -, hoe⟩ := hreports e he
    exact hoe.sourceFile
  · obtain ⟨o, -, hoe⟩ := hreports e he
    refine ⟨lineAt content o.start, hoe.line, Nat.succ_pos _, ?_⟩
    rw [Nat.add_comm]
    exact lineAt_le content o.start
  · refine pairwise_of_forall₂ h hstarts fun {o o' e e'} hoe hoe' hlt n hn n' hn' ↦ ?_
    rw [hoe.line] at hn
    rw [hoe'.line] at hn'
    cases hn
    cases hn'
    exact Int.ofNat_le.mpr (lineAt_mono content hlt.le)

/-! ## Turns -/

theorem turnsAt_singleton (hcontent : contentAt s p = .ok content) (d : Dialect) :
    turnsAt s [d] p = if d.appliesTo p.toText content then [⟨d, p.toText, content⟩] else [] := by
  rw [turnsAt, hcontent]
  dsimp only
  rw [turnsOn, List.filter_cons]
  split <;> rfl

theorem endpoints_turnsAt (dialects : List Dialect) :
    (turnsAt s dialects p).flatMap Turn.endpoints = dialects.flatMap (reportedAt s p) := by
  induction dialects with
  | nil =>
    rw [turnsAt]
    cases contentAt s p <;> rfl
  | cons d rest ih =>
    rw [List.flatMap_cons, ← ih, reportedAt, ← List.flatMap_append, ← turnsAt_append,
      List.singleton_append]

theorem ofText_toText_of_mem_pathsOf (hs : s.Sound) (hp : p ∈ pathsOf s root none) :
    Path.ofText p.toText = p := by
  obtain ⟨l, bytes, -, hpath, -, hnode⟩ := exists_of_mem_pathsOf hs hp
  have habsolute : p.root = "/" := by rw [hpath]
  exact Path.ofText_toText (.inr (.inl habsolute)) fun name hname ↦
    (hs.isFileName hnode name hname).isPart

theorem orderly_reportedAt (hs : s.Sound) (hp : p ∈ pathsOf s root none)
    (hcontent : contentAt s p = .ok content) (hd : d ∈ builtIn) :
    Orderly p content d (reportedAt s p d) := by
  obtain ⟨pattern, defaultPath, hgrammar⟩ := exists_grammar hd
  have hnothing : Orderly p content d [] :=
    orderly_of_reports hgrammar (fun hne ↦ absurd rfl hne) (List.nil_sublist _) .nil
  rw [reportedAt, turnsAt_singleton hcontent]
  split
  · next happlies =>
    rw [List.flatMap_singleton]
    have hsuffix : d.name = "nestjs" → p.suffix = ".ts" := by
      intro hname
      cases hgrammar with
      | express => exact absurd hname (by decide)
      | fastify => exact absurd hname (by decide)
      | nestjs =>
        have hboth : (decide ((Path.ofText p.toText).suffix = ".ts") &&
            Declaration.controllerMarker.occursIn content) = true := happlies
        rw [ofText_toText_of_mem_pathsOf hs hp, Bool.and_eq_true, decide_eq_true_eq] at hboth
        exact hboth.1
    by_cases hdeep : Turn.TooDeep ⟨d, p.toText, content⟩ pattern
    · rw [(isLost_of_tooDeep hgrammar hdeep).endpoints]
      exact hnothing
    · exact orderly_of_reports hgrammar (fun _ ↦ hsuffix) (List.Sublist.refl _)
        (isComplete_of_not_tooDeep hgrammar hdeep).endpoints
  · exact hnothing

/-- **Every endpoint of a scan is well formed and stands where it says.** A walk through a sound
store has a result. Its endpoints are those of one listed file after the other and, in each, of one
built-in dialect after the other. What a dialect reports in a file is well formed, names both,
stands on lines of the text of the file, and is in the order of the declarations, so the lines never
go back. The dialect of controller classes reports from TypeScript files only. -/
theorem scan_reports_well_formed (root now : Text) (hs : s.Sound)
    (hroot : Files.check root = .ok ()) :
    ∃ c, scan s builtIn root none now = .ok c ∧
      c.endpoints = (pathsOf s root none).flatMap (fun p ↦ builtIn.flatMap (reportedAt s p)) ∧
      (∀ p ∈ pathsOf s root none, ∃ content, contentAt s p = .ok content ∧
        ∀ d ∈ builtIn, Orderly p content d (reportedAt s p d)) ∧
      ∀ e ∈ c.endpoints, e.WellFormed := by
  have hreadable : ∀ p ∈ pathsOf s root none, Readable s p := readable_of_mem_pathsOf hs
  have horderly : ∀ p ∈ pathsOf s root none, ∃ content, contentAt s p = .ok content ∧
      ∀ d ∈ builtIn, Orderly p content d (reportedAt s p d) := by
    intro p hp
    obtain ⟨bytes, hread⟩ := hreadable p hp
    have hcontent : contentAt s p = .ok (sourceText bytes) := by rw [contentAt, hread]
    exact ⟨_, hcontent, fun d hd ↦ orderly_reportedAt hs hp hcontent hd⟩
  have hendpoints : (turns s builtIn (pathsOf s root none)).flatMap Turn.endpoints =
      (pathsOf s root none).flatMap fun p ↦ builtIn.flatMap (reportedAt s p) := by
    rw [turns, List.flatMap_assoc]
    simp only [endpoints_turnsAt]
  refine ⟨_, scan_of_readable hroot decides_builtIn hreadable, hendpoints, horderly, fun e he ↦ ?_⟩
  rw [hendpoints] at he
  obtain ⟨p, hp, he⟩ := List.mem_flatMap.mp he
  obtain ⟨d, hd, he⟩ := List.mem_flatMap.mp he
  obtain ⟨content, -, hdialects⟩ := horderly p hp
  exact (hdialects d hd).wellFormed e he

private def fluentSource : Bytes :=
  Utf8.encode "express;\n/** Lists\n *  all.\n * @param {int=} page */\nget('/one'); post('/two')\n"

private def controllerSource : Bytes := Utf8.encode "@Controller('c')\n@Get()\n@Put(':id')\n"

private def mixedStore : Store :=
  ⟨.dir "w" (.file "a.js" fluentSource (.dir "d" (.file "b.ts" controllerSource .empty) .empty))
    .empty, []⟩

private theorem sound_mixedStore : mixedStore.Sound where
  files := by
    have hnames : ∀ name ∈ (["w", "a.js", "d", "b.ts"] : List Text), Path.IsFileName name := by
      intro name hname
      refine ⟨⟨?_, ?_, ?_⟩, ⟨?_, ?_, ?_⟩, ?_⟩ <;> revert name <;> decide
    have hfluent : fluentSource.length < 0x8000000000000000 := by decide +kernel
    have hcontroller : controllerSource.length < 0x8000000000000000 := by decide +kernel
    exact ⟨hnames _ (by decide), ⟨hnames _ (by decide), hfluent, rfl, hnames _ (by decide),
      ⟨hnames _ (by decide), hcontroller, rfl, trivial⟩, rfl, trivial⟩, rfl, trivial⟩
  directory := rfl

/-- Two fluent calls on one line, the first of them documented, and two methods of a controller. -/
theorem scan_reports_well_formed_mixed :
    ∃ c, scan mixedStore builtIn "/w" none "t" = .ok c ∧
      c.endpoints.map (fun e ↦ (e.framework, e.path, e.line)) =
        ([("express", "/one", some 5), ("express", "/two", some 5), ("nestjs", "/", some 2),
          ("nestjs", ":id", some 3)] : List (Text × Text × Option Int)) ∧
      c.endpoints.map (·.description) =
        ([some "Lists all.", some "Lists all.", none, none] : List (Option Text)) ∧
      ∀ e ∈ c.endpoints, e.WellFormed := by
  have hpaths : pathsOf mixedStore "/w" none =
      [⟨"/", ["w", "a.js"]⟩, ⟨"/", ["w", "d", "b.ts"]⟩] := by decide +kernel
  obtain ⟨c, hscan, hendpoints, -, hwellFormed⟩ :=
    scan_reports_well_formed "/w" "t" sound_mixedStore rfl
  rw [hpaths] at hendpoints
  refine ⟨c, hscan, ?_, ?_, hwellFormed⟩
  · rw [hendpoints]
    decide +kernel
  · rw [hendpoints]
    decide +kernel

end Scan

end RouteCatalog
