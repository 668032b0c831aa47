import RouteCatalog.Proofs.Settings.Save
import RouteCatalog.Proofs.Yaml.Scalar

/-!
# Saved settings are loaded again

Settings of the kinds that the program gives them are saved as a mapping of five names to scalars.
The text of the mapping is stored as it is and reads back as the same entries, and taking the port
for an integer and the comparison for a truth value changes neither. So the settings that are loaded
from the same root are those that were saved (`load_save`).
-/

namespace RouteCatalog.Settings

open Yaml

variable {s s' : Store} {root : Option Text} {settings : Settings} {r p : Path}

/-- Settings of a root: texts, an integer and a truth value stand where the program has them. -/
structure Regular (settings : Settings) (r : Path) : Prop where
  rootDir : settings .rootDir = .str r.toText
  outputFile : ∃ t, settings .outputFile = .str t
  serveHost : ∃ t, settings .serveHost = .str t
  /-- The port is any integer that may be read from its numeral. -/
  servePort : ∃ i, settings .servePort = .int i ∧
    (Text.ofNat i.natAbs).length ≤ Numeral.maxDigits
  incremental : ∃ b, settings .incremental = .bool b

/-! ## The text of settings -/

theorem isName (f : Setting) : IsName f.name := by
  refine ⟨?_, ?_, ?_, ?_⟩ <;> cases f <;> decide

theorem Regular.exists_fields (h : Regular settings r) :
    ∃ fields : List Field, settings.entries = fields.map Field.entry ∧
      fields.map Field.name = Setting.all.map Setting.name := by
  obtain ⟨outputFile, houtput⟩ := h.outputFile
  obtain ⟨serveHost, hhost⟩ := h.serveHost
  obtain ⟨servePort, hport, hdigits⟩ := h.servePort
  obtain ⟨incremental, hincremental⟩ := h.incremental
  refine ⟨[.ofText (isName .rootDir) r.toText, .ofText (isName .outputFile) outputFile,
    .ofBool (isName .incremental) incremental, .ofText (isName .serveHost) serveHost,
    .ofInt (isName .servePort) hdigits], ?_, rfl⟩
  simp only [entries, Setting.all, List.map_cons, List.map_nil, h.rootDir, houtput, hincremental,
    hhost, hport]
  rfl

theorem Regular.read_text (h : Regular settings r) :
    Yaml.read settings.text = .ok (.map settings.entries) := by
  obtain ⟨fields, hentries, hnames⟩ := h.exists_fields
  have hnodup : (fields.map Field.name).Nodup := by
    rw [hnames]
    decide
  rw [text, hentries]
  exact read_write hnodup

theorem Regular.plain_text (h : Regular settings r) : settings.text.Plain := by
  obtain ⟨fields, hentries, -⟩ := h.exists_fields
  rw [text, hentries]
  exact (printed_write fields).plain

/-! ## Layers -/

theorem Regular.contents_eq (h : Regular settings r)
    (hread : s.read p = .ok (Utf8.encode settings.text)) :
    contents s p = .ok (.entries settings.entries) := by
  rw [contents, hread]
  dsimp only
  rw [Utf8.decode_encode h.plain_text]
  dsimp only
  rw [Text.unifyNewlines_of_plain h.plain_text, h.read_text]

theorem ofEntries_entries (settings : Settings) (f : Setting) :
    Layer.ofEntries settings.entries f = some (settings f) := by
  cases f <;> rfl

/-- An integer is taken for itself, and so is a truth value. -/
theorem Regular.fileLayer_entries (h : Regular settings r) :
    fileLayer settings.entries = .ok fun f ↦ some (settings f) := by
  obtain ⟨servePort, hport, -⟩ := h.servePort
  obtain ⟨incremental, hincremental⟩ := h.incremental
  rw [fileLayer]
  simp only [ofEntries_entries, hport, hincremental]
  refine congrArg Except.ok (funext fun f ↦ ?_)
  cases f with
  | servePort => rw [hport]; rfl
  | incremental => rw [hincremental]; rfl
  | _ => rfl

/-! ## Loading -/

theorem check_of_isDirectory {t : Text} (h : s.isDirectory (Path.ofText t) = true) :
    Files.check t = .ok () := by
  obtain ⟨inside, hentry⟩ := Store.isDirectory_iff.mp h
  obtain ⟨l, hlocate, -⟩ := Store.entry_eq_ok_iff.mp hentry
  have htaken := (Store.locate_eq_ok_iff.mp hlocate).1
  exact Files.check_eq_ok_iff.mpr (Files.refusal?_flatten_eq_none_iff.mp htaken)

/-- Without an environment and without values of the caller, the settings file has the last word
about everything but the root, and that is the one it is looked for in. -/
theorem Regular.load_of_contents (h : Regular settings (rootFor s root))
    (hcheck : Files.check (root.getD []) = .ok ())
    (hcontents : contents s (fileIn (rootFor s root)) = .ok (.entries settings.entries)) :
    load s root {} .none = .ok settings := by
  have henvironment : environmentLayer {} = .ok .none := by
    rw [environmentLayer]
    exact congrArg Except.ok (funext fun f ↦ by cases f <;> rfl)
  have hroot := h.rootDir
  rw [rootFor] at hcontents hroot
  rw [load, hcheck, hcontents]
  simp only [bind, Except.bind, h.fileLayer_entries, henvironment]
  refine congrArg Except.ok (funext fun f ↦ ?_)
  cases hexplicit : explicitRoot s root with
  | none => rfl
  | some explicit =>
    rw [hexplicit] at hroot
    cases f with
    | rootDir => exact hroot.symm
    | _ => rfl

/-- **Saved settings are loaded again.** Regular settings of the resolved root are saved unless
something stands in the place of their directory or their file; what is loaded from the same root
afterwards are these settings, and saving them again changes nothing. -/
theorem load_save (hs : s.Sound) (hroot : s.isDirectory (Path.ofText (root.getD [])) = true)
    (h : Regular settings (rootFor s root)) :
    ((∀ content, s.node? (fileIn (rootFor s root)).parent.parts ≠ some (.file content)) →
        s.node? (fileIn (rootFor s root)).parts ≠ some .dir →
        ∃ s', settings.save s = (s', .ok (fileIn (rootFor s root)))) ∧
      ∀ s' p, settings.save s = (s', .ok p) →
        load s' root {} .none = .ok settings ∧
          s'.read p = .ok (Utf8.encode settings.text) ∧ settings.save s' = (s', .ok p) := by
  have hdirectory := isDirectoryRoot_rootFor hs hroot
  refine ⟨exists_save hdirectory h.rootDir, fun s' p hsave ↦ ?_⟩
  obtain ⟨rfl, hsaved⟩ := saved_of_save hdirectory h.rootDir hsave
  have hsame : rootFor s' root = rootFor s root := by
    rw [rootFor, rootFor, explicitRoot, explicitRoot, workingPath, workingPath, hsaved.directory]
  have hcontents := h.contents_eq hsaved.read
  rw [← hsame] at h hcontents
  exact ⟨h.load_of_contents (check_of_isDirectory hroot) hcontents, hsaved.read, hsaved.again⟩

private def projectStore : Store := ⟨.dir "p" .empty .empty, ["p"]⟩

private def projectSettings : Settings
  | .rootDir => .str "/p"
  | .outputFile => .str "- a: 'b'  \n\n\t\x07é #\n"
  | .incremental => .bool false
  | .serveHost => .str "0x1F"
  | .servePort => .int (-10)

private theorem sound_projectStore : projectStore.Sound where
  files := by
    refine ⟨⟨⟨?_, ?_, ?_⟩, ⟨?_, ?_, ?_⟩, ?_⟩, trivial, rfl, trivial⟩ <;> decide
  directory := rfl

private theorem regular_projectSettings :
    projectSettings.Regular (rootFor projectStore (some ".")) where
  rootDir := congrArg Yaml.str (by decide +kernel)
  outputFile := ⟨_, rfl⟩
  serveHost := ⟨_, rfl⟩
  servePort := ⟨_, rfl, by decide⟩
  incremental := ⟨_, rfl⟩

/-- A host that looks like a number, a negative port, and an output file of several lines with
quotes, blanks before a line break, a control character and an accent. -/
theorem load_save_projectSettings :
    ∃ s', projectSettings.save projectStore = (s', .ok ⟨"/", ["p", directoryName, fileName]⟩) ∧
      load s' (some ".") {} .none = .ok projectSettings := by
  obtain ⟨hsave, hload⟩ :=
    load_save sound_projectStore (by decide +kernel) regular_projectSettings
  have habsent : projectStore.node? (fileIn (rootFor projectStore (some "."))).parent.parts =
      none := by decide +kernel
  have habsent' : projectStore.node? (fileIn (rootFor projectStore (some "."))).parts = none := by
    decide +kernel
  obtain ⟨s', hs'⟩ := hsave (by rw [habsent]; nofun) (by rw [habsent']; nofun)
  exact ⟨s', hs', (hload s' _ hs').1⟩

end RouteCatalog.Settings
