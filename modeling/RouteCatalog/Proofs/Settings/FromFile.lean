import RouteCatalog.Proofs.Settings.Layers
import RouteCatalog.Proofs.Yaml.Faults

/-!
# Settings from any file

A settings file may hold any bytes. What is no YAML document, and what is no mapping, counts as a
file without entries. Four kinds of contents stop the loading: bytes that are not UTF-8, a document
that nests too deeply, one of which a word or a node has a fault of its own, and an infinite port
(`Stops`). In all other cases there are settings, with a port that is an integer and a comparison
that is a truth value; the output file and the host are what the file has written, of whatever kind
(`load_root`).
-/

namespace RouteCatalog.Settings

variable {s : Store} {t : Text} {r p : Path} {bytes : Bytes} {fault : Fault} {found : Contents}

/-! ## Contents -/

/-- Why the bytes of a settings file stop the loading. -/
inductive Stops (bytes : Bytes) : Fault → Prop
  | undecodable {fault : Utf8.Fault} (h : Utf8.decode bytes = .error fault) :
    Stops bytes (.undecodable fault)
  /-- The document nests too deeply. -/
  | tooDeep {text : Text} (htext : Utf8.decode bytes = .ok text)
    (hread : Yaml.read text.unifyNewlines = .error .tooDeep) : Stops bytes (.badValue .tooDeep)
  /-- A word or a node of the document has a fault of its own. -/
  | badValue {text : Text} {fault : Yaml.Fault} (htext : Utf8.decode bytes = .ok text)
    (hread : Yaml.read text.unifyNewlines = .error fault) (hne : fault ≠ .malformed)
    (hlies : fault.Lies text.unifyNewlines) : Stops bytes (.badValue fault)
  | infinitePort {text : Text} {entries : List (Yaml × Yaml)} {negative : Bool}
    (htext : Utf8.decode bytes = .ok text)
    (hread : Yaml.read text.unifyNewlines = .ok (.map entries))
    (hport : Yaml.entry? "serve_port" entries = some (.float (.infinite negative))) :
    Stops bytes .infinitePort

/-- The entries that what was read for a settings file stands for. -/
inductive Lists : Except Files.Fault Bytes → List (Yaml × Yaml) → Prop
  /-- Nothing could be read. -/
  | absent {fault : Files.Fault} : Lists (.error fault) []
  /-- The text is no document. -/
  | malformed {bytes : Bytes} {text : Text} (htext : Utf8.decode bytes = .ok text)
    (hread : Yaml.read text.unifyNewlines = .error .malformed) : Lists (.ok bytes) []
  | noMapping {bytes : Bytes} {text : Text} {v : Yaml} (htext : Utf8.decode bytes = .ok text)
    (hread : Yaml.read text.unifyNewlines = .ok v) (hv : ∀ entries, v ≠ .map entries) :
    Lists (.ok bytes) []
  | mapping {bytes : Bytes} {text : Text} {entries : List (Yaml × Yaml)}
    (htext : Utf8.decode bytes = .ok text)
    (hread : Yaml.read text.unifyNewlines = .ok (.map entries)) : Lists (.ok bytes) entries

theorem stops_of_contents (htaken : Files.refusal? p.parts.flatten = none)
    (h : contents s p = .error fault) : ∃ bytes, s.read p = .ok bytes ∧ Stops bytes fault := by
  rw [contents] at h
  split at h
  · next cause hread =>
    rw [Store.fromSystem_of_read htaken hread, if_pos rfl] at h
    cases h
  · next bytes hread =>
    refine ⟨bytes, hread, ?_⟩
    split at h
    · next cause htext =>
      cases h
      exact .undecodable htext
    · next text htext =>
      split at h
      · cases h
      · next cause hne hdocument =>
        cases h
        by_cases hdeep : cause = .tooDeep
        · rw [hdeep] at hdocument ⊢
          exact .tooDeep htext hdocument
        · exact .badValue htext hdocument hne (Yaml.lies_of_read hdocument hne hdeep)
      · cases h
      · cases h

theorem lists_of_contents (h : contents s p = .ok found) : Lists (s.read p) found.listed := by
  rw [contents] at h
  split at h
  · next cause hread =>
    rw [hread]
    split at h
    · cases h
      exact .absent
    · cases h
  · next bytes hread =>
    rw [hread]
    split at h
    · cases h
    · next text htext =>
      split at h
      · next hdocument =>
        cases h
        exact .malformed htext hdocument
      · cases h
      · next entries hdocument =>
        cases h
        exact .mapping htext hdocument
      · next v hv hdocument =>
        cases h
        exact .noMapping htext hdocument hv

theorem contents_of_undecodable {cause : Utf8.Fault} (hread : s.read p = .ok bytes)
    (htext : Utf8.decode bytes = .error cause) : contents s p = .error (.undecodable cause) := by
  rw [contents, hread]
  dsimp only
  rw [htext]

theorem contents_of_badValue {text : Text} {cause : Yaml.Fault} (hread : s.read p = .ok bytes)
    (htext : Utf8.decode bytes = .ok text)
    (hdocument : Yaml.read text.unifyNewlines = .error cause) (hne : cause ≠ .malformed) :
    contents s p = .error (.badValue cause) := by
  rw [contents, hread]
  dsimp only
  rw [htext]
  dsimp only
  rw [hdocument]
  cases cause with
  | malformed => exact absurd rfl hne
  | _ => rfl

theorem contents_of_mapping {text : Text} {entries : List (Yaml × Yaml)}
    (hread : s.read p = .ok bytes) (htext : Utf8.decode bytes = .ok text)
    (hdocument : Yaml.read text.unifyNewlines = .ok (.map entries)) :
    contents s p = .ok (.entries entries) := by
  rw [contents, hread]
  dsimp only
  rw [htext]
  dsimp only
  rw [hdocument]

theorem Lists.stops_of_infinite {listed : List (Yaml × Yaml)} (h : Lists (s.read p) listed)
    (hinfinite : ¬ HasFinite listed) :
    ∃ bytes, s.read p = .ok bytes ∧ Stops bytes .infinitePort := by
  simp only [HasFinite, not_forall, not_not] at hinfinite
  obtain ⟨negative, hport⟩ := hinfinite
  generalize s.read p = read at h
  cases h with
  | mapping htext hread => exact ⟨_, rfl, .infinitePort htext hread hport⟩
  | _ => cases hport

section

variable {text : Text} {entries : List (Yaml × Yaml)} (htext : Utf8.decode bytes = .ok text)
  (hread : Yaml.read text.unifyNewlines = .ok (.map entries))
include htext hread

theorem Stops.not_hasFinite (h : Stops bytes fault) : ¬ HasFinite entries := by
  intro hfinite
  cases h with
  | undecodable htext' => cases htext.symm.trans htext'
  | tooDeep htext' hread' | badValue htext' hread' =>
    cases htext.symm.trans htext'
    cases hread.symm.trans hread'
  | infinitePort htext' hread' hport =>
    cases htext.symm.trans htext'
    cases hread.symm.trans hread'
    exact hfinite _ hport

theorem Lists.eq_of_mapping {listed : List (Yaml × Yaml)} (h : Lists (.ok bytes) listed) :
    listed = entries := by
  cases h with
  | malformed htext' hread' =>
    cases htext.symm.trans htext'
    cases hread.symm.trans hread'
  | noMapping htext' hread' hv =>
    cases htext.symm.trans htext'
    cases hread.symm.trans hread'
    exact absurd rfl (hv entries)
  | mapping htext' hread' =>
    cases htext.symm.trans htext'
    cases hread.symm.trans hread'
    rfl

end

/-! ## Roots -/

/-- The system takes the path of a settings file if its root can be a path. -/
theorem refusal?_fileIn (hs : s.Sound) (hne : t ≠ []) (hroot : Files.check t = .ok ()) :
    Files.refusal? (fileIn (rootFor s (some t))).parts.flatten = none := by
  have hparts : (fileIn (rootFor s (some t))).parts =
      ((Path.ofText t).resolve s.directory).parts ++ [directoryName, fileName] := by
    cases t with
    | nil => exact absurd rfl hne
    | cons c t =>
      rw [fileIn, ofText_file]
      rfl
  rw [Files.refusal?_flatten_eq_none_iff, hparts, List.forall_mem_append]
  refine ⟨fun name hname ↦ ?_, by decide⟩
  rcases (Path.mem_parts_resolve hname).1 with hdirectory | hnames
  · exact (hs.isFileName hs.directory name hdirectory).leadsDown.taken
  · exact Files.check_eq_ok_iff.mp hroot name hnames

/-! ## Loading -/

/-- The integer that a port in a settings file stands for, if it can be used. -/
def usablePort (v : Yaml) : Option Int := (integerOf v).toOption.join

/-- Settings that come from the entries of a settings file and from the root where it is. -/
structure FromFile (listed : List (Yaml × Yaml)) (r : Path) (settings : Settings) : Prop where
  /-- The root is not that of the file. -/
  rootDir : settings .rootDir = .str r.toText
  outputFile : settings .outputFile =
    (Yaml.entry? "output_file" listed).getD (.str Snapshot.defaultFile)
  /-- The comparison is a truth value. -/
  incremental : settings .incremental =
    .bool ((Yaml.entry? "incremental" listed).elim true truthOf)
  serveHost : settings .serveHost = (Yaml.entry? "serve_host" listed).getD (.str "127.0.0.1")
  servePort : settings .servePort =
    .int (((Yaml.entry? "serve_port" listed).bind usablePort).getD 4173)

theorem FromFile.outputPath_iff {listed : List (Yaml × Yaml)} {settings : Settings}
    (h : FromFile listed r settings) :
    (∃ p, settings.outputPath = .ok p) ↔ ∃ file, settings .outputFile = .str file := by
  rw [outputPath, rootPath, h.rootDir]
  constructor
  · rintro ⟨p, hp⟩
    dsimp only [bind, Except.bind] at hp
    split at hp
    · next file hfile => exact ⟨file, hfile⟩
    · cases hp
  · rintro ⟨file, hfile⟩
    rw [hfile]
    exact ⟨_, rfl⟩

theorem load_of_contents_error {root : Option Text} {environment : Environment} {given : Layer}
    (hroot : Files.check (root.getD []) = .ok ())
    (h : contents s (fileIn (rootFor s root)) = .error fault) :
    load s root environment given = .error fault := by
  rw [rootFor] at h
  rw [load, hroot, h]
  rfl

theorem fromFile_settings (hne : t ≠ []) (directory : Text) :
    FromFile found.listed (rootFor s (some t))
      ((inputOf s (some t) {} .none found).settings directory) := by
  have hlow (f : Setting) (hf : f ≠ .rootDir) :
      (inputOf s (some t) {} .none found).settings directory f =
        ((Yaml.entry? f.name found.listed).bind fun v ↦
          (Source.taken .file f v).toOption.join).getD (defaults directory f) := by
    rw [Input.settings, findSome?_all]
    cases f with
    | rootDir => exact absurd rfl hf
    | _ => rfl
  constructor
  · cases t with
    | nil => exact absurd rfl hne
    | cons => rfl
  · rw [hlow .outputFile (by decide)]
    exact congrArg (Option.getD · _) (Option.bind_fun_some _)
  · rw [hlow .incremental (by decide)]
    show (Option.bind (Yaml.entry? "incremental" found.listed) _).getD _ = _
    cases Yaml.entry? "incremental" found.listed <;> rfl
  · rw [hlow .serveHost (by decide)]
    exact congrArg (Option.getD · _) (Option.bind_fun_some _)
  · rw [hlow .servePort (by decide)]
    show (Option.bind (Yaml.entry? "serve_port" found.listed) _).getD _ = _
    cases Yaml.entry? "serve_port" found.listed with
    | none => rfl
    | some v =>
      show ((integerOf v).map (·.map Yaml.int)).toOption.join.getD _ = _
      rw [Option.bind_some, usablePort]
      cases integerOf v with
      | error => rfl
      | ok n => cases n <;> rfl

theorem load_of_stops (hroot : Files.check t = .ok ())
    (hread : s.read (fileIn (rootFor s (some t))) = .ok bytes) (h : Stops bytes fault) :
    load s (some t) {} .none = .error fault := by
  cases h with
  | undecodable htext =>
    exact load_of_contents_error hroot (contents_of_undecodable hread htext)
  | tooDeep htext hdocument =>
    exact load_of_contents_error hroot (contents_of_badValue hread htext hdocument nofun)
  | badValue htext hdocument hne =>
    exact load_of_contents_error hroot (contents_of_badValue hread htext hdocument hne)
  | infinitePort htext hdocument hport =>
    refine load_of_infinite hroot (contents_of_mapping hread htext hdocument) rfl ?_
    exact fun hfinite ↦ hfinite _ hport

/-- The settings file stops the loading, or settings come from its entries. -/
theorem load_cases (hs : s.Sound) (hne : t ≠ []) (hroot : Files.check t = .ok ()) :
    (∃ fault bytes, load s (some t) {} .none = .error fault ∧
        s.read (fileIn (rootFor s (some t))) = .ok bytes ∧ Stops bytes fault) ∨
      ∃ settings listed, load s (some t) {} .none = .ok settings ∧
        Lists (s.read (fileIn (rootFor s (some t)))) listed ∧
        FromFile listed (rootFor s (some t)) settings := by
  have hinteger : ({} : Environment).HasInteger := nofun
  cases hcontents : contents s (fileIn (rootFor s (some t))) with
  | error fault =>
    obtain ⟨bytes, hread, hstops⟩ :=
      stops_of_contents (refusal?_fileIn hs hne hroot) hcontents
    exact .inl ⟨fault, bytes, load_of_contents_error hroot hcontents, hread, hstops⟩
  | ok found =>
    have hlists := lists_of_contents hcontents
    by_cases hfinite : HasFinite found.listed
    · refine .inr ⟨_, found.listed, load_of_readable hroot hcontents rfl ?_, hlists,
        fromFile_settings hne _⟩
      exact Input.readable_iff.mpr ⟨hinteger, hfinite⟩
    · obtain ⟨bytes, hread, hstops⟩ := hlists.stops_of_infinite hfinite
      exact .inl ⟨_, bytes, load_of_infinite hroot hcontents rfl hfinite, hread, hstops⟩

private def rootWith (bytes : Bytes) : Store :=
  ⟨.dir "p" (.dir ".zeus-core" (.file "config.yaml" bytes .empty) .empty) .empty, ["p"]⟩

private theorem sound_rootWith (h : bytes.length < 0x8000000000000000) :
    (rootWith bytes).Sound where
  files := by
    have hnames : ∀ name ∈ (["p", ".zeus-core", "config.yaml"] : List Text),
        Path.IsFileName name := by
      intro name hname
      refine ⟨⟨?_, ?_, ?_⟩, ⟨?_, ?_, ?_⟩, ?_⟩ <;> revert name <;> decide
    exact ⟨hnames _ (by decide), ⟨hnames _ (by decide), ⟨hnames _ (by decide), h, rfl, trivial⟩,
      rfl, trivial⟩, rfl, trivial⟩
  directory := rfl

private theorem read_rootWith :
    (rootWith bytes).read (fileIn (rootFor (rootWith bytes) (some "/p"))) = .ok bytes := rfl

private def infiniteContent : Text := "serve_port: -.inf\n"

private def taggedContent : Text := "a: !!int x\n"

private def numberContent : Text := "output_file: 5\nserve_port: abc\n"

private theorem read_infiniteContent : Yaml.read infiniteContent =
    .ok (.map [(.str "serve_port", .float (.infinite true))]) := by
  have htokens : Yaml.Token.all infiniteContent = [.blockMap, .key, .scalar "serve_port" true,
      .value, .scalar "-.inf" true, .blockEnd] := by decide +kernel
  rw [Yaml.read, htokens]
  rfl

private theorem read_taggedContent : Yaml.read taggedContent =
    .error (.integer (.notNumeral "x" 10)) := by
  have htokens : Yaml.Token.all taggedContent = [.blockMap, .key, .scalar "a" true, .value,
      .tag (some "!!") "int", .scalar "x" true, .blockEnd] := by decide +kernel
  rw [Yaml.read, htokens]
  rfl

private theorem read_numberContent : Yaml.read numberContent =
    .ok (.map [(.str "output_file", .int 5), (.str "serve_port", .str "abc")]) := by
  have htokens : Yaml.Token.all numberContent = [.blockMap, .key, .scalar "output_file" true,
      .value, .scalar "5" true, .key, .scalar "serve_port" true, .value, .scalar "abc" true,
      .blockEnd] := by decide +kernel
  rw [Yaml.read, htokens]
  rfl

end RouteCatalog.Settings
