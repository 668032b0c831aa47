import RouteCatalog.Proofs.Catalog.AllOrNothing
import RouteCatalog.Proofs.Command.Run
import RouteCatalog.Proofs.Scan

/-!
# How generating a snapshot ends

A run of `generate` prints a heading, scans, persists, and prints what it has done. What it prints
is markup, and the texts in it stand there as they are. The exit code therefore depends on more than
the scan and the snapshot (`generate_exitCode`): the run breaks off at the first text that the
console does not accept, even when the snapshot is in place by then.

This holds for any console. On one that keeps to its documentation, texts in which no tag starts do
no harm (`Harmless.accepts`).
-/

namespace RouteCatalog.Command

open Markup (Piece Untagged)

variable {w : Surroundings} {s s' : Store} {args : List Text} {verbose showTable : Bool}
  {given : Option Text} {incremental : Option Bool} {settings : Settings} {root outputFile : Text}
  {c : Catalog} {written : Snapshot.Written}

/-! ## What is printed -/

/-- What is printed before the scan. -/
def heading (root : Text) : Text :=
  Run.programName ++ " scanning " ++ Run.styled "cyan" root

/-- The texts of a column. -/
def columnTexts (column : Console.Column) : List Text := column.header :: column.cells

/-- The texts of a table. -/
def tableTexts (t : Console.Table) : List Text := t.columns.flatMap columnTexts ++ [t.title]

/-- What is printed about the warnings of a catalog. -/
def warningLines (c : Catalog) : List Text :=
  if !c.warnings.isEmpty then
    Run.styled "yellow" ("Warnings: " ++ Text.ofNat c.warnings.length) ::
      c.warnings.map ("  - " ++ ·)
  else []

/-- What is printed about a catalog that was persisted. -/
def summary (c : Catalog) (written : Snapshot.Written) : List Text :=
  ("Generated " ++ Text.ofNat written.written ++ " endpoints (unchanged: " ++
      Text.ofNat written.unchanged ++ ")") ::
    ("Output written to " ++ Run.styled "cyan" written.outputPath.toText) :: warningLines c

/-- What is printed after a catalog was persisted. -/
def conclusion (c : Catalog) (written : Snapshot.Written) (showTable : Bool) : List Text :=
  if showTable && !c.endpoints.isEmpty then tableTexts (Run.table c) ++ summary c written
  else summary c written

/-! ## The steps -/

/-- What the command line adds to the settings. -/
def comparing : Option Bool → Layer
  | some b => .one .incremental (.bool b)
  | none => .none

theorem leads_settings {layer : Layer}
    (h : Settings.load s given w.environment layer = .ok settings) :
    Leads (Run.settings w verbose given layer) s (.ok settings) s := by
  refine .get_bind fun reported ↦ (leads_report _ s).bind ?_
  dsimp only
  rw [h]
  exact .pure settings s

theorem leads_scanned (h : scan s Dialect.builtIn root none w.now = .ok c) :
    Leads (Run.scanned w verbose root) s (.ok c) s := by
  refine .get_bind fun reported ↦ (leads_report _ s).bind ?_
  dsimp only
  rw [h]
  exact .pure c s

theorem leads_scanned_error {fault : Files.Fault} {stop : Stop}
    (h : scan s Dialect.builtIn root none w.now = .error (.unreadable fault))
    (hfail : Leads (Run.fail w "Generate" fault : Run Catalog) s (.error stop) s) :
    Leads (Run.scanned w verbose root) s (.error stop) s := by
  refine .get_bind fun reported ↦ (leads_report _ s).bind ?_
  dsimp only
  rw [h]
  exact hfail

theorem leads_persisted {incremental : Bool}
    (h : Snapshot.persist s c root outputFile incremental w.tag = (s', .ok written)) :
    Leads (Run.persisted w verbose c root outputFile incremental) s (.ok written) s' := by
  refine .get_bind fun reported ↦ (leads_report _ s).bind ((leads_change _ s).bind ?_)
  rw [h]
  exact .pure written s'

theorem leads_persisted_error {incremental : Bool} {fault : Files.Fault} {stop : Stop}
    (h : Snapshot.persist s c root outputFile incremental w.tag =
      (s', .error (.unwritable fault)))
    (hfail : Leads (Run.fail w "Generate" fault : Run Snapshot.Written) s' (.error stop) s') :
    Leads (Run.persisted w verbose c root outputFile incremental) s (.error stop) s' := by
  refine .get_bind fun reported ↦ (leads_report _ s).bind ((leads_change _ s).bind ?_)
  rw [h]
  exact hfail

theorem leads_textOf (fault : Yaml → Settings.PathFault) (t : Text) (s : Store) :
    Leads (Run.textOf fault (.str t)) s (.ok t) s := .pure t s

theorem shows_shownColumn (column : Console.Column) (s : Store) :
    Shows w (Run.shownColumn w column) s (columnTexts column) s := by
  refine (shows_shown column.header s).bind fun _ ↦ ?_
  have hcells : Shows w (column.cells.mapM (Run.shown w)) s (column.cells.flatMap ([·])) s :=
    shows_mapM (shows_shown · s) column.cells
  rw [List.flatMap_singleton'] at hcells
  exact hcells.bind_pure _

theorem shows_printTable (t : Console.Table) (s : Store) :
    Shows w (Run.printTable w t) s (tableTexts t) s :=
  (shows_mapM (shows_shownColumn · s) t.columns).bind fun _ ↦
    List.append_nil [t.title] ▸ (shows_shown t.title s).bind fun _ ↦ shows_report _ s

/-- Once the snapshot is in place, the run goes through if the console accepts what it still
prints. -/
theorem shows_generate
    (hsettings : Settings.load s given w.environment (comparing incremental) = .ok settings)
    (hroot : settings .rootDir = .str root) (hfile : settings .outputFile = .str outputFile)
    (hheading : w.render.Accepts (heading root))
    (hscan : scan s Dialect.builtIn root none w.now = .ok c)
    (hpersist : Snapshot.persist s c root outputFile settings.isIncremental w.tag =
      (s', .ok written)) :
    Shows w (Run.generate w verbose given incremental showTable) s
      (conclusion c written showTable) s' := by
  refine .of_leads_bind (leads_settings hsettings) ?_
  rw [hroot, hfile]
  refine .of_leads_bind (leads_print hheading s) (.of_leads_bind (leads_textOf _ root s)
    (.of_leads_bind (leads_scanned hscan) (.of_leads_bind (leads_textOf _ outputFile s)
      (.of_leads_bind (leads_persisted hpersist) ?_))))
  -- The table is printed before the summary or not at all.
  refine .ite ((shows_printTable (Run.table c) s').bind fun _ ↦ ?_) ?_
  all_goals
    exact (shows_print _ s').bind fun _ ↦ (shows_print _ s').bind fun _ ↦
      .ite ((shows_print _ s').bind fun _ ↦ (shows_forIn c.warnings s').bind_pure fun _ ↦ ())
        (.of_leads (.pure () s'))

/-- A scan of the root, or the writing of its snapshot, fails with a fault and leaves a store. -/
inductive Fails (w : Surroundings) (s : Store) (root outputFile : Text) (incremental : Bool)
    (fault : Files.Fault) : Store → Prop
  /-- A file cannot be read. -/
  | scan (h : scan s Dialect.builtIn root none w.now = .error (.unreadable fault)) :
    Fails w s root outputFile incremental fault s
  /-- The snapshot cannot be written. -/
  | persist {c : Catalog} {s' : Store} (hscan : scan s Dialect.builtIn root none w.now = .ok c)
    (h : Snapshot.persist s c root outputFile incremental w.tag =
      (s', .error (.unwritable fault))) :
    Fails w s root outputFile incremental fault s'

/-- A failure leaves the earlier snapshot, and every other file, as it was. -/
theorem Fails.onlyDirectories {incremental : Bool} {fault : Files.Fault}
    (h : Fails w s root outputFile incremental fault s') :
    s.OnlyDirectories (Snapshot.pathFor root outputFile).parent s' := by
  cases h with
  | scan h => exact Store.onlyDirectories_of_creates .refl
  | @persist c _ hscan h =>
    have hpersists := Snapshot.persists_persist s c root outputFile incremental w.tag
    rw [h] at hpersists
    exact Snapshot.onlyDirectories_of_persists hpersists

theorem exists_leads_generate
    (hsettings : Settings.load s given w.environment (comparing incremental) = .ok settings)
    (hroot : settings .rootDir = .str root) (hfile : settings .outputFile = .str outputFile)
    (hheading : w.render.Accepts (heading root)) {fault : Files.Fault}
    (hsystem : fault.fromSystem = true)
    (h : Fails w s root outputFile settings.isIncremental fault s') :
    ∃ stop, Leads (Run.generate w verbose given incremental showTable) s (.error stop) s' ∧
      (w.render.Accepts (failure "Generate" fault) → stop.break? = none) ∧
        (¬ w.render.Accepts (failure "Generate" fault) →
          ∃ why, stop.break? = some (.markup why)) := by
  cases h with
  | scan hscan =>
    obtain ⟨stop, hfail, hends⟩ := exists_leads_fail hsystem "Generate" s
    refine ⟨stop, (leads_settings hsettings).bind ?_, hends⟩
    rw [hroot]
    exact (leads_print hheading s).bind ((leads_textOf _ root s).bind
      ((leads_scanned_error hscan hfail).bind_error _))
  | persist hscan hpersist =>
    obtain ⟨stop, hfail, hends⟩ := exists_leads_fail hsystem "Generate" s'
    refine ⟨stop, (leads_settings hsettings).bind ?_, hends⟩
    rw [hroot, hfile]
    exact (leads_print hheading s).bind ((leads_textOf _ root s).bind
      ((leads_scanned hscan).bind ((leads_textOf _ outputFile s).bind
        ((leads_persisted_error hpersist hfail).bind_error _))))

/-- A run breaks off before the scan if the console does not accept its heading. -/
theorem exists_leads_generate_of_not_accepts
    (hsettings : Settings.load s given w.environment (comparing incremental) = .ok settings)
    (hroot : settings .rootDir = .str root) (hheading : ¬ w.render.Accepts (heading root)) :
    ∃ why, Leads (Run.generate w verbose given incremental showTable) s
      (.error (.broken (.markup why))) s := by
  obtain ⟨why, hprint⟩ := exists_leads_print hheading s
  refine ⟨why, (leads_settings hsettings).bind ?_⟩
  rw [hroot]
  exact hprint.bind_error _

/-! ## Texts in which no tag starts -/

theorem shortPath_isSuffix (file directory : Text) : Run.shortPath file directory <:+ file := by
  rw [Run.shortPath]
  split
  · next rest hrest =>
    rw [Text.dropLiteral?_eq_some_iff.mp hrest]
    exact (List.dropWhile_suffix _).trans (List.suffix_append directory rest)
  · exact List.suffix_rfl

theorem untagged_lineCell (line : Option Int) : Untagged (Run.lineCell line) := by
  unfold Run.lineCell
  split
  · split
    · trivial
    · exact Markup.untagged_ofInt _
  · trivial

theorem untagged_verb (v : Verb) : Untagged v.name := by
  cases v <;> decide

theorem untagged_dialect {d : Dialect} (hd : d ∈ Dialect.builtIn) : Untagged d.name := by
  have hall : ∀ d ∈ Dialect.builtIn, Untagged d.name := by
    simp only [Dialect.builtIn, List.forall_mem_cons, List.not_mem_nil, false_implies,
      implies_true, and_true]
    exact ⟨by decide, by decide, by decide⟩
  exact hall d hd

theorem untagged_warning {p : Text} (hp : Untagged p) {d : Dialect} (hd : d ∈ Dialect.builtIn) :
    Untagged (Scan.warning p d.name) := by
  have hstart : Untagged "Failed to parse " := by decide
  have hwith : Untagged " with " := by decide
  exact ((hstart.append hp).append hwith).append (untagged_dialect hd)

theorem untagged_counts (n m : Nat) :
    Untagged
      ("Generated " ++ Text.ofNat n ++ " endpoints (unchanged: " ++ Text.ofNat m ++ ")") := by
  have hgenerated : Untagged "Generated " := by decide
  have hendpoints : Untagged " endpoints (unchanged: " := by decide
  have hend : Untagged ")" := by decide
  exact (((hgenerated.append (Markup.untagged_ofNat n)).append hendpoints).append
    (Markup.untagged_ofNat m)).append hend

/-- No tag starts in a path that is shown: neither in that of the snapshot, nor in those of the
files, nor in those of the endpoints in a table. -/
structure Harmless (s : Store) (root outputFile : Text) (c : Catalog) (showTable : Bool) :
    Prop where
  snapshot : Untagged (Snapshot.pathFor root outputFile).toText
  files : ∀ p ∈ Scan.pathsOf s root none, Untagged p.toText
  endpoints : showTable = true → ∀ e ∈ c.endpoints, Untagged e.path

theorem Harmless.untagged_table (h : Harmless s root outputFile c true) {now : Text}
    (hscan : scan s Dialect.builtIn root none now = .ok c) :
    ∀ t ∈ tableTexts (Run.table c), Untagged t := by
  obtain ⟨hendpoints, -⟩ := Scan.origin_of_scan hscan
  simp only [tableTexts, Run.table, columnTexts, List.flatMap_cons, List.flatMap_nil,
    List.append_nil, List.forall_mem_append, List.forall_mem_cons, List.forall_mem_map,
    List.not_mem_nil, false_implies, implies_true, and_true]
  refine ⟨⟨⟨by decide, fun e _ ↦ untagged_verb e.verb⟩, ⟨by decide, h.endpoints rfl⟩,
    ⟨by decide, fun e he ↦ ?_⟩, ⟨by decide, fun e he ↦ ?_⟩,
    ⟨by decide, fun e _ ↦ untagged_lineCell e.line⟩⟩, by decide⟩
  · obtain ⟨⟨d, hd, hframework⟩, -⟩ := hendpoints e he
    exact hframework ▸ untagged_dialect hd
  · obtain ⟨-, p, hp, hsource⟩ := hendpoints e he
    exact (hsource ▸ h.files p hp).of_suffix (shortPath_isSuffix _ _)

section Regular

variable (hregular : w.render.Regular)
include hregular

theorem accepts_heading (h : Untagged root) : w.render.Accepts (heading root) := by
  have hpieces : ∀ p ∈ [Piece.styled "bold" Scope.programName, .plain " scanning ",
      .styled "cyan" root], p.Tidy := by
    simp only [List.forall_mem_cons, List.not_mem_nil, false_implies, implies_true, and_true]
    exact ⟨.styled (by decide) (by decide), .plain (by decide), .styled (by decide) h⟩
  simpa [Piece.toText, heading, Run.programName, Run.styled] using hregular.accepts _ hpieces

theorem accepts_failure {fault : Files.Fault} (h : Untagged fault.message) :
    w.render.Accepts (failure "Generate" fault) := by
  have hblank : Untagged " " := by decide
  have hpieces : ∀ p ∈ [Piece.styled "red" "Generate failed:", .plain (" " ++ fault.message)],
      p.Tidy := by
    simp only [List.forall_mem_cons, List.not_mem_nil, false_implies, implies_true, and_true]
    exact ⟨.styled (by decide) (by decide), .plain (hblank.append h)⟩
  simpa [Piece.toText, failure, Text.ofString] using hregular.accepts _ hpieces

theorem accepts_place {path : Text} (h : Untagged path) :
    w.render.Accepts ("Output written to " ++ Run.styled "cyan" path) := by
  have hpieces : ∀ p ∈ [Piece.plain "Output written to ", .styled "cyan" path], p.Tidy := by
    simp only [List.forall_mem_cons, List.not_mem_nil, false_implies, implies_true, and_true]
    exact ⟨.plain (by decide), .styled (by decide) h⟩
  simpa [Piece.toText, Run.styled] using hregular.accepts _ hpieces

theorem accepts_warningCount (n : Nat) :
    w.render.Accepts (Run.styled "yellow" ("Warnings: " ++ Text.ofNat n)) := by
  have hwarnings : Untagged "Warnings: " := by decide
  have hpieces : ∀ p ∈ [Piece.styled "yellow" ("Warnings: " ++ Text.ofNat n)], p.Tidy := by
    rw [List.forall_mem_singleton]
    exact .styled (by decide) (hwarnings.append (Markup.untagged_ofNat n))
  simpa [Piece.toText, Run.styled] using hregular.accepts _ hpieces

/-- A console that keeps to its documentation accepts what a run prints about a catalog with
harmless paths. -/
theorem Harmless.accepts (h : Harmless s root outputFile c showTable) {now : Text}
    (hscan : scan s Dialect.builtIn root none now = .ok c)
    (hpath : written.outputPath = Snapshot.pathFor root outputFile) :
    ∀ t ∈ conclusion c written showTable, w.render.Accepts t := by
  obtain ⟨-, hwarnings⟩ := Scan.origin_of_scan hscan
  have hlines : ∀ t ∈ warningLines c, w.render.Accepts t := by
    rw [warningLines]
    split
    · refine List.forall_mem_cons.mpr ⟨accepts_warningCount hregular _, ?_⟩
      rw [List.forall_mem_map]
      intro t ht
      obtain ⟨d, hd, p, hp, rfl⟩ := hwarnings t ht
      have hdash : Untagged "  - " := by decide
      exact hregular.accepts_untagged (hdash.append (untagged_warning (h.files p hp) hd))
    · exact fun _ h ↦ absurd h List.not_mem_nil
  have hsummary : ∀ t ∈ summary c written, w.render.Accepts t :=
    List.forall_mem_cons.mpr ⟨hregular.accepts_untagged (untagged_counts _ _),
      List.forall_mem_cons.mpr ⟨accepts_place hregular (hpath ▸ h.snapshot), hlines⟩⟩
  rw [conclusion]
  split
  · next htable =>
    obtain rfl := (Bool.and_eq_true_iff.mp htable).1
    exact List.forall_mem_append.mpr
      ⟨fun t ht ↦ hregular.accepts_untagged (h.untagged_table hscan t ht), hsummary⟩
  · exact hsummary

end Regular

/-! ## The exit code -/

/-- **The exit code of `generate`, on any console.** If the console does not accept the heading, the
run breaks off before it does anything. Otherwise it scans and persists. When both succeed, the
whole catalog is stored, and the exit code is zero if the console accepts what is then printed; if
not, the run breaks off with the snapshot in place. When one of them fails with a fault of the
system, every file is as it was, and the exit code is one; the run does not break off if the console
accepts the message. A console that keeps to its documentation accepts all of it when no tag starts
in a path, the root or the message. -/
theorem generate_exitCode {o : Outcome} (ho : run w s args = o)
    (hrequest : request s args = .ok ⟨verbose, .generate given incremental showTable⟩)
    (hsettings : Settings.load s given w.environment (comparing incremental) = .ok settings)
    (hroot : settings .rootDir = .str root) (hfile : settings .outputFile = .str outputFile) :
    (w.render.Regular → Untagged root → w.render.Accepts (heading root)) ∧
    (¬ w.render.Accepts (heading root) →
      o.store = s ∧ o.exitCode = 1 ∧ ∃ why, o.broken = some (.markup why)) ∧
    (w.render.Accepts (heading root) →
      (∀ c s' written, scan s Dialect.builtIn root none w.now = .ok c →
        Snapshot.persist s c root outputFile settings.isIncremental w.tag = (s', .ok written) →
        o.store = s' ∧ Snapshot.Stored s s' c root outputFile written ∧
          o.Ends w 0 (conclusion c written showTable) ∧
          (w.render.Regular → Harmless s root outputFile c showTable →
            ∀ t ∈ conclusion c written showTable, w.render.Accepts t)) ∧
      ∀ fault s', fault.fromSystem = true →
        Fails w s root outputFile settings.isIncremental fault s' →
        o.store = s' ∧ s.OnlyDirectories (Snapshot.pathFor root outputFile).parent s' ∧
          o.Ends w 1 [failure "Generate" fault] ∧
          (w.render.Regular → Untagged fault.message →
            w.render.Accepts (failure "Generate" fault))) := by
  subst ho
  refine ⟨accepts_heading, fun hheading ↦ ?_, fun hheading ↦
    ⟨fun c s' written hscan hpersist ↦ ?_, fun fault s' hsystem hfails ↦ ?_⟩⟩
  · obtain ⟨why, hleads⟩ := exists_leads_generate_of_not_accepts hsettings hroot hheading
    obtain ⟨hstore, hcode, hbroken⟩ := run_of_leads_error hrequest (hleads.bind_error _)
    exact ⟨hstore, hcode, why, hbroken⟩
  · obtain ⟨hstore, hends⟩ := run_of_shows hrequest
      ((shows_generate hsettings hroot hfile hheading hscan hpersist).bind_pure fun _ ↦ none)
    have hpersists := Snapshot.persists_persist s c root outputFile settings.isIncremental w.tag
    rw [hpersist] at hpersists
    have hstored := Snapshot.stored_of_persists hpersists
    exact ⟨hstore, hstored, hends, fun hregular hharmless ↦
      hharmless.accepts hregular hscan hstored.outputPath⟩
  · obtain ⟨stop, hleads, haccepts, hbreaks⟩ :=
      exists_leads_generate hsettings hroot hfile hheading hsystem hfails
    obtain ⟨hstore, hcode, hbroken⟩ := run_of_leads_error hrequest (hleads.bind_error _)
    refine ⟨hstore, hfails.onlyDirectories, ⟨fun h ↦ ⟨hcode, ?_⟩, fun h ↦ ⟨hcode, ?_⟩⟩,
      fun hregular ↦ accepts_failure hregular⟩
    · exact hbroken.trans (haccepts (List.forall_mem_singleton.mp h))
    · obtain ⟨t, ht, hnot⟩ := h
      rw [List.mem_singleton.mp ht] at hnot
      exact hbroken ▸ hbreaks hnot

/-- A project with a source file, and other entries beside it. -/
private def projectWith (others : Tree) : Store :=
  ⟨.dir "p" (.file "a.js" (Utf8.encode "express;\nget('/a[/b]')\n") others) .empty, ["p"]⟩

private def bracketStore : Store := projectWith .empty

private def blockedStore : Store := projectWith (.file ".zeus-core" [] .empty)

private def projectSurroundings : Surroundings := ⟨{}, "t", "c", "1", true, Markup.render⟩

private def bracketEndpoint : Endpoint where
  verb := .get
  path := "/a[/b]"
  framework := "express"
  sourceFile := "/p/a.js"
  line := some 2

private def bracketCatalog : Catalog := ⟨"/p", [bracketEndpoint], [], "t"⟩

private theorem scan_projectWith (others : Tree)
    (h : Scan.pathsOf (projectWith others) "/p" none = [⟨"/", ["p", "a.js"]⟩]) :
    scan (projectWith others) Dialect.builtIn "/p" none "t" = .ok bracketCatalog := by
  refine Scan.scan_eq_ok_iff.mpr ⟨rfl, ⟨bracketCatalog.endpoints, []⟩, ?_, rfl⟩
  rw [h]
  rfl

private def tableRun : Outcome := run projectSurroundings bracketStore ["generate", "--table"]

private def quietRun : Outcome := run projectSurroundings bracketStore ["generate"]

private def blockedRun : Outcome := run projectSurroundings blockedStore ["generate"]

/-- A path that looks like a closing tag breaks the run off when it is to be shown in a table,
although the snapshot is in place; without a table it does no harm. Where a file stands in the way
of the snapshot, the run fails and says so. -/
theorem generate_exitCode_bracket :
    (∃ written why, Snapshot.Stored bracketStore tableRun.store bracketCatalog "/p"
        Snapshot.defaultFile written ∧
      tableRun.exitCode = 1 ∧ tableRun.broken = some (.markup why)) ∧
    (quietRun.exitCode = 0 ∧ quietRun.broken = none) ∧
    blockedRun.exitCode = 1 ∧ blockedRun.broken = none := by
  have hsources : Scan.pathsOf bracketStore "/p" none = [⟨"/", ["p", "a.js"]⟩] := by
    decide +kernel
  have hscan := scan_projectWith .empty hsources
  have htable : request bracketStore ["generate", "--table"] =
      .ok ⟨false, .generate none none true⟩ := by decide +kernel
  have hquiet : request bracketStore ["generate"] = .ok ⟨false, .generate none none false⟩ := by
    decide +kernel
  obtain ⟨settings, hsettings, hroot, hfile, hcompares⟩ : ∃ settings,
      Settings.load bracketStore none {} (comparing none) = .ok settings ∧
        settings .rootDir = .str "/p" ∧ settings .outputFile = .str Snapshot.defaultFile ∧
          settings.isIncremental = true := ⟨_, rfl, rfl, rfl, rfl⟩
  obtain ⟨s', written, hpersist⟩ : ∃ s' written, Snapshot.persist bracketStore
      bracketCatalog "/p" Snapshot.defaultFile true "1" = (s', .ok written) := ⟨_, _, rfl⟩
  rw [← hcompares] at hpersist
  have hregular : projectSurroundings.render.Regular := Markup.regular_render
  have hheading : projectSurroundings.render.Accepts (heading "/p") :=
    accepts_heading hregular (by decide)
  have hcell : ¬ projectSurroundings.render.Accepts "/a[/b]" := by
    rintro ⟨shown, h⟩
    cases h
  have hprinted : ("/a[/b]" : Text) ∈ tableTexts (Run.table bracketCatalog) := by decide +kernel
  refine ⟨?_, ?_, ?_⟩
  · obtain ⟨-, -, hrun⟩ := generate_exitCode (o := tableRun) rfl htable hsettings hroot hfile
    obtain ⟨rfl, hstored, hends, -⟩ := (hrun hheading).1 _ _ _ hscan hpersist
    obtain ⟨hcode, why, hbroken⟩ := hends.breaks
      ⟨"/a[/b]", List.mem_append_left _ hprinted, hcell⟩
    exact ⟨_, why, hstored, hcode, hbroken⟩
  · obtain ⟨-, -, hrun⟩ := generate_exitCode (o := quietRun) rfl hquiet hsettings hroot hfile
    obtain ⟨-, -, hends, haccepts⟩ := (hrun hheading).1 _ _ _ hscan hpersist
    refine hends.shown (haccepts hregular ⟨by decide +kernel, ?_, by decide⟩)
    rw [hsources]
    exact List.forall_mem_singleton.mpr (by decide +kernel)
  · have hblocked := scan_projectWith (.file ".zeus-core" [] .empty) (by decide +kernel)
    have hrequest : request blockedStore ["generate"] =
        .ok ⟨false, .generate none none false⟩ := by decide +kernel
    obtain ⟨settings, hsettings, hroot, hfile, hcompares⟩ : ∃ settings,
        Settings.load blockedStore none {} (comparing none) = .ok settings ∧
          settings .rootDir = .str "/p" ∧ settings .outputFile = .str Snapshot.defaultFile ∧
            settings.isIncremental = true := ⟨_, rfl, rfl, rfl, rfl⟩
    obtain ⟨s', fault, hpersist, hsystem, hmessage⟩ : ∃ s' fault,
        Snapshot.persist blockedStore bracketCatalog "/p" Snapshot.defaultFile true "1" =
            (s', .error (.unwritable fault)) ∧
          fault.fromSystem = true ∧ Untagged fault.message :=
      ⟨_, _, rfl, by decide +kernel, by decide +kernel⟩
    rw [← hcompares] at hpersist
    obtain ⟨-, -, hrun⟩ := generate_exitCode (o := blockedRun) rfl hrequest hsettings hroot hfile
    obtain ⟨-, -, hends, haccepts⟩ := (hrun hheading).2 _ _ hsystem (.persist hblocked hpersist)
    exact hends.shown (List.forall_mem_singleton.mpr (haccepts hregular hmessage))

end RouteCatalog.Command
