import RouteCatalog.Proofs.Route.Report
import RouteCatalog.Proofs.Scan.Turns

/-!
# Documentation and endpoints

A scan with the built-in dialects always has a result, and every declaration in it that is
recognised is reported once, however its comment is malformed (`Scan.scan_reports_declarations`).
One kind of comment is the exception: where one nests too deeply, the turn of the dialect on that
file is lost, with all its endpoints, and leaves a warning.
-/

namespace RouteCatalog.Scan

open Dialect

variable {s : Store} {root now file content : Text} {t : Turn} {pattern : Pattern Declaration}
  {defaultPath : Text}

namespace Turn

/-- Some declaration in the file has a comment that nests too deeply. -/
def TooDeep (t : Turn) (pattern : Pattern Declaration) : Prop :=
  ∃ o ∈ pattern.occurrences t.content, TooDeepAt t.content o.start

/-- Every declaration in the file is reported, and there is no warning. -/
structure IsComplete (t : Turn) (pattern : Pattern Declaration) (defaultPath : Text) : Prop where
  /-- The endpoints are those of the declarations, in their order. -/
  endpoints : List.Forall₂ (Reports t.dialect.name defaultPath t.file t.content)
    (pattern.occurrences t.content) t.endpoints
  /-- There is no warning. -/
  warning? : t.warning? = none

/-- Nothing in the file is reported but a warning. -/
structure IsLost (t : Turn) : Prop where
  endpoints : t.endpoints = []
  /-- There is a warning. -/
  warning? : t.warning? = some (warning t.file t.dialect.name)

end Turn

section Turns

variable (hgrammar : Grammar t.dialect pattern defaultPath)
include hgrammar

theorem isComplete_of_not_tooDeep (h : ¬ t.TooDeep pattern) : t.IsComplete pattern defaultPath := by
  obtain ⟨endpoints, hextract, hall⟩ :=
    hgrammar.extract_of_shallow t.file fun o ho hdeep ↦ h ⟨o, ho, hdeep⟩
  constructor
  · rw [Turn.endpoints, hextract]
    exact hall
  · rw [Turn.warning?, hextract]

theorem isLost_of_tooDeep (h : t.TooDeep pattern) : t.IsLost := by
  obtain ⟨o, ho, hdeep⟩ := h
  obtain ⟨failure, hextract⟩ := hgrammar.extract_of_tooDeepAt t.file ho hdeep
  constructor
  · rw [Turn.endpoints, hextract]
    rfl
  · rw [Turn.warning?, hextract]

end Turns

theorem decides_builtIn : ∀ d ∈ builtIn, d.Decides := by
  intro d hd
  obtain ⟨pattern, defaultPath, hgrammar⟩ := exists_grammar hd
  cases hgrammar <;> exact fun _ _ ↦ ⟨_, rfl⟩

theorem readable_of_mem_pathsOf (hs : s.Sound) : ∀ p ∈ pathsOf s root none, Readable s p := by
  intro p hp
  obtain ⟨l, content, -, -, hlocate, hnode⟩ := exists_of_mem_pathsOf hs hp
  exact ⟨content, Store.read_eq_ok_iff.mpr ⟨p.parts, hlocate, hnode⟩⟩

theorem mem_of_mem_turns {dialects : List Dialect} {ps : List Path} (h : t ∈ turns s dialects ps) :
    t.dialect ∈ dialects := by
  obtain ⟨p, -, ht⟩ := List.mem_flatMap.mp h
  rw [turnsAt] at ht
  split at ht
  · obtain ⟨d, hd, rfl⟩ := List.mem_map.mp ht
    exact List.mem_of_mem_filter hd
  · cases ht

/-- **Every declaration is reported once, however its comment is malformed**, unless the comment of
a declaration in the same file nests too deeply. A walk through a sound store has a result, made of
the turns of the built-in dialects. A turn either reports every declaration that the pattern of its
dialect recognises, one endpoint for each, in their order and with what the comment says leniently;
or one of the comments nests too deeply, and all that the turn gives is a warning. So there is no
warning if and only if no comment nests too deeply. -/
theorem scan_reports_declarations (root now : Text) (hs : s.Sound)
    (hroot : Files.check root = .ok ()) :
    ∃ c, scan s builtIn root none now = .ok c ∧
      c.endpoints = (turns s builtIn (pathsOf s root none)).flatMap Turn.endpoints ∧
      c.warnings = (turns s builtIn (pathsOf s root none)).filterMap Turn.warning? ∧
      (∀ t ∈ turns s builtIn (pathsOf s root none), ∃ pattern defaultPath,
        Grammar t.dialect pattern defaultPath ∧
          (¬ t.TooDeep pattern → t.IsComplete pattern defaultPath) ∧
            (t.TooDeep pattern → t.IsLost)) ∧
      (c.warnings = [] ↔ ∀ t ∈ turns s builtIn (pathsOf s root none), ∀ pattern defaultPath,
        Grammar t.dialect pattern defaultPath → ¬ t.TooDeep pattern) := by
  refine ⟨_, scan_of_readable hroot decides_builtIn (readable_of_mem_pathsOf hs), rfl, rfl, ?_, ?_⟩
  · intro t ht
    obtain ⟨pattern, defaultPath, hgrammar⟩ := exists_grammar (mem_of_mem_turns ht)
    exact ⟨pattern, defaultPath, hgrammar, isComplete_of_not_tooDeep hgrammar,
      isLost_of_tooDeep hgrammar⟩
  · rw [List.filterMap_eq_nil_iff]
    constructor
    · intro hnone t ht pattern defaultPath hgrammar hdeep
      have hwarning := (isLost_of_tooDeep hgrammar hdeep).warning?
      rw [hnone t ht] at hwarning
      cases hwarning
    · intro hshallow t ht
      obtain ⟨pattern, defaultPath, hgrammar⟩ := exists_grammar (mem_of_mem_turns ht)
      exact (isComplete_of_not_tooDeep hgrammar
        (hshallow t ht pattern defaultPath hgrammar)).warning?

/-- A route whose comment gives a request body. -/
private def commented (body : Text) : Bytes :=
  Utf8.encode ("express;\n/** @requestBody " ++ body ++ " */\nget('/one')\n")

private def lossyStore : Store :=
  ⟨.dir "w" (.file "a.js" (commented (List.replicate 951 '['))
    (.dir "d" (.file "b.js" (commented "\x7boops") .empty) .empty)) .empty, []⟩

private theorem sound_lossyStore : lossyStore.Sound where
  files := by
    have hnames : ∀ name ∈ (["w", "a.js", "d", "b.js"] : List Text), Path.IsFileName name := by
      intro name hname
      refine ⟨⟨?_, ?_, ?_⟩, ⟨?_, ?_, ?_⟩, ?_⟩ <;> revert name <;> decide
    have hfirst : (commented (List.replicate 951 '[')).length < 0x8000000000000000 := by
      decide +kernel
    have hother : (commented "\x7boops").length < 0x8000000000000000 := by decide +kernel
    exact ⟨hnames _ (by decide), ⟨hnames _ (by decide), hfirst, rfl, hnames _ (by decide),
      ⟨hnames _ (by decide), hother, rfl, trivial⟩, rfl, trivial⟩, rfl, trivial⟩
  directory := rfl

/-- Two routes with malformed bodies: one is kept as plain text, and one nests too deeply. -/
theorem scan_reports_declarations_lossy :
    ∃ c, scan lossyStore builtIn "/w" none "t" = .ok c ∧
      c.warnings = ["Failed to parse /w/a.js with express"] ∧
      c.endpoints.map (fun e ↦ (e.sourceFile, e.requestBody.compact)) =
        ([("/w/d/b.js", "\x7b\"schema\": \"\x7boops\"\x7d")] : List (Text × Text)) := by
  have hpaths : pathsOf lossyStore "/w" none =
      [⟨"/", ["w", "a.js"]⟩, ⟨"/", ["w", "d", "b.js"]⟩] := by decide +kernel
  obtain ⟨c, hscan, hendpoints, hwarnings, -⟩ :=
    scan_reports_declarations "/w" "t" sound_lossyStore rfl
  rw [hpaths] at hendpoints hwarnings
  refine ⟨c, hscan, ?_⟩
  rw [hwarnings, hendpoints]
  decide +kernel

end RouteCatalog.Scan
