import RouteCatalog.Proofs.Settings.Layers
import RouteCatalog.Proofs.Text.Ascii

/-!
# What hidden values can do

The layers of settings hide each other setting by setting, and unknown names in the settings file
mean nothing. Two inputs that differ only in values that are hidden in both lead to the same
settings, so a hidden value of the file may be anything (`load_layered`). The environment is read
before the values of the caller are put on top of it: a port there that is no integer stops the
loading even where another port hides it (`hidden_port_stops_load`).
-/

namespace RouteCatalog.Settings

variable {s : Store} {root : Option Text} {environment : Environment} {given : Layer}
  {found : Contents}

/-- A directory with a settings file. -/
private def configured (content : Text) : Store :=
  ⟨.dir "p" (.dir ".zeus-core" (.file "config.yaml" (Utf8.encode content) .empty) .empty) .empty,
    ["p"]⟩

private theorem contents_configured {content : Text} {listed : List (Yaml × Yaml)}
    (hplain : content.Plain) (hread : Yaml.read content = .ok (.map listed)) :
    contents (configured content) (fileIn ⟨"/", ["p"]⟩) = .ok (.entries listed) := by
  have hbytes : (configured content).read (fileIn ⟨"/", ["p"]⟩) = .ok (Utf8.encode content) := rfl
  rw [contents, hbytes]
  dsimp only
  rw [Utf8.decode_encode hplain]
  dsimp only
  rw [Text.unifyNewlines_of_plain hplain, hread]

/-- The port of the caller hides that of the environment, which still stops the loading if it is no
integer. -/
theorem hidden_port_stops_load :
    let s := configured "serve_port: 9000\n"
    let given : Layer := .one .servePort (.int 9200)
    let found := Contents.entries [(.str "serve_port", .int 9000)]
    contents s (fileIn (rootFor s none)) = .ok found ∧
      (inputOf s none ⟨some "9100", none⟩ given found).DifferHidden
        (inputOf s none ⟨some "abc", none⟩ given found) ∧
      (∃ settings, load s none ⟨some "9100", none⟩ given = .ok settings ∧
        settings .servePort = .int 9200) ∧
      load s none ⟨some "abc", none⟩ given =
        .error (.environmentPort (.notNumeral "abc" 10)) := by
  intro s given found
  have hcontents : contents s (fileIn (rootFor s none)) = .ok found := by
    refine contents_configured (by decide) ?_
    have htokens : Yaml.Token.all "serve_port: 9000\n" = [.blockMap, .key,
        .scalar "serve_port" true, .value, .scalar "9000" true, .blockEnd] := by decide +kernel
    rw [Yaml.read, htokens]
    rfl
  have hfinite : HasFinite found.listed := by
    intro negative h
    cases h
  have hinteger : (⟨some "9100", none⟩ : Environment).HasInteger := by
    intro t ht _
    cases ht
    exact ⟨9100, by decide⟩
  refine ⟨hcontents, ?_, ?_, ?_⟩
  · intro o f
    cases o with
    | root => exact .inl (by cases f <;> rfl)
    | environment =>
      cases f with
      | servePort => exact .inr ⟨.caller, by decide, rfl, rfl⟩
      | _ => exact .inl rfl
    | _ => exact .inl rfl
  · exact ⟨_, load_of_readable rfl hcontents rfl (Input.readable_iff.mpr ⟨hinteger, hfinite⟩), rfl⟩
  · exact load_of_environment_fault rfl hcontents rfl hfinite rfl nofun (by decide)

/-- **Later layers win setting by setting, and what they hide has no influence** on the settings,
though a port of the environment that is no integer stops the loading, hidden or not. Let the root
be a text that can be a path and the port of the settings file not be infinite. If the port of the
environment is an integer, or is not given, every setting is loaded from the highest of its sources
that gives it: the root that is asked for, the values of the caller that are not null, the
environment without its empty variables, the settings file as far as it can be used, and the
defaults. If the port is no integer, loading fails with its fault. From two inputs that differ only
in values that sources above hide in both, the same is loaded, as long as their environments have
the same port or integers for it. -/
theorem load_layered (hroot : Files.check (root.getD []) = .ok ())
    (hcontents : contents s (fileIn (rootFor s root)) = .ok found)
    (hfinite : HasFinite found.listed) :
    (environment.HasInteger → load s root environment given =
        .ok ((inputOf s root environment given found).settings (workingPath s).toText)) ∧
      (∀ t fault, environment.servePort = some t → t ≠ [] → Numeral.read t = .error fault →
        load s root environment given = .error (.environmentPort fault)) ∧
      ∀ s' environment' given' found', s'.directory = s.directory →
        contents s' (fileIn (rootFor s' root)) = .ok found' → HasFinite found'.listed →
        (inputOf s root environment given found).DifferHidden
          (inputOf s' root environment' given' found') →
        (environment.servePort = environment'.servePort ∨
          environment.HasInteger ∧ environment'.HasInteger) →
        load s root environment given = load s' root environment' given' := by
  have hreadable (h : environment.HasInteger) :
      (inputOf s root environment given found).Readable := Input.readable_iff.mpr ⟨h, hfinite⟩
  refine ⟨fun h ↦ load_of_readable hroot hcontents rfl (hreadable h), fun t fault ht hne hfault ↦
    load_of_environment_fault hroot hcontents rfl hfinite ht hne hfault, ?_⟩
  intro s' environment' given' found' hdirectory hcontents' hfinite' hhidden hports
  by_cases hinteger : environment.HasInteger
  · have hinteger' : environment'.HasInteger := by
      rcases hports with hsame | ⟨-, h⟩
      · intro t ht
        exact hinteger t (hsame.trans ht)
      · exact h
    have hx := hreadable hinteger
    rw [load_of_readable hroot hcontents rfl hx, load_of_readable hroot hcontents' rfl
      (Input.readable_iff.mpr ⟨hinteger', hfinite'⟩), hhidden.settings_eq hx, workingPath,
      workingPath, hdirectory]
  · have hsame := hports.resolve_right fun h ↦ hinteger h.1
    -- The port that both environments have is no integer.
    obtain ⟨t, ht, hne, fault, hfault⟩ : ∃ t, environment.servePort = some t ∧ t ≠ [] ∧
        ∃ fault, Numeral.read t = .error fault := by
      simp only [Environment.HasInteger, not_forall] at hinteger
      obtain ⟨t, ht, hne, hno⟩ := hinteger
      cases hread : Numeral.read t with
      | ok n => exact absurd ⟨n, hread⟩ hno
      | error fault => exact ⟨t, ht, hne, fault, hread⟩
    rw [load_of_environment_fault hroot hcontents rfl hfinite ht hne hfault,
      load_of_environment_fault hroot hcontents' rfl hfinite' (hsame ▸ ht) hne hfault]

private def unusableContent : Text := "serve_port: abc\noutput_file: out.json\n"

private def unusableListed : List (Yaml × Yaml) :=
  [(.str "serve_port", .str "abc"), (.str "output_file", .str "out.json")]

private def movedContent : Text := "root_dir: /q\nserve_port: 80\noutput_file: out.json\nx: 1\n"

private def movedListed : List (Yaml × Yaml) :=
  [(.str "root_dir", .str "/q"), (.str "serve_port", .int 80),
    (.str "output_file", .str "out.json"), (.str "x", .int 1)]

private theorem read_unusableContent : Yaml.read unusableContent = .ok (.map unusableListed) := by
  have htokens : Yaml.Token.all unusableContent = [.blockMap, .key, .scalar "serve_port" true,
      .value, .scalar "abc" true, .key, .scalar "output_file" true, .value,
      .scalar "out.json" true, .blockEnd] := by decide +kernel
  rw [Yaml.read, htokens]
  rfl

private theorem read_movedContent : Yaml.read movedContent = .ok (.map movedListed) := by
  have htokens : Yaml.Token.all movedContent = [.blockMap, .key, .scalar "root_dir" true, .value,
      .scalar "/q" true, .key, .scalar "serve_port" true, .value, .scalar "80" true, .key,
      .scalar "output_file" true, .value, .scalar "out.json" true, .key, .scalar "x" true, .value,
      .scalar "1" true, .blockEnd] := by decide +kernel
  rw [Yaml.read, htokens]
  rfl

/-- Under a root and a port of the caller, the root and the port of the file and the port of the
environment may change, and the port of the file may be unusable. -/
theorem load_layered_hidden :
    let s := configured unusableContent
    let s' := configured movedContent
    let given : Layer := .one .servePort (.int 9200)
    load s (some "/p") ⟨some "9100", some " ON "⟩ given =
        load s' (some "/p") ⟨some "-1", some " ON "⟩ given ∧
      ∃ settings, load s (some "/p") ⟨some "9100", some " ON "⟩ given = .ok settings ∧
        settings .rootDir = .str "/p" ∧ settings .outputFile = .str "out.json" ∧
        settings .incremental = .bool true ∧ settings .servePort = .int 9200 := by
  intro s s' given
  have hcontents : contents s (fileIn (rootFor s (some "/p"))) = .ok (.entries unusableListed) :=
    contents_configured (by decide) read_unusableContent
  have hcontents' : contents s' (fileIn (rootFor s' (some "/p"))) = .ok (.entries movedListed) :=
    contents_configured (by decide) read_movedContent
  have hinteger : (⟨some "9100", some " ON "⟩ : Environment).HasInteger := by
    intro t ht _
    cases ht
    exact ⟨9100, by decide⟩
  have hinteger' : (⟨some "-1", some " ON "⟩ : Environment).HasInteger := by
    intro t ht _
    cases ht
    exact ⟨-1, by decide⟩
  -- The input, with its root resolved.
  have hinput : inputOf s (some "/p") ⟨some "9100", some " ON "⟩ given (.entries unusableListed) =
      ⟨some ⟨"/", ["p"]⟩, given, ⟨some "9100", some " ON "⟩, unusableListed⟩ := rfl
  have hinput' : inputOf s' (some "/p") ⟨some "-1", some " ON "⟩ given (.entries movedListed) =
      ⟨some ⟨"/", ["p"]⟩, given, ⟨some "-1", some " ON "⟩, movedListed⟩ := rfl
  obtain ⟨hload, -, hsame⟩ :=
    @load_layered s (some "/p") ⟨some "9100", some " ON "⟩ given _ rfl hcontents nofun
  have hsettings := hload hinteger
  rw [hinput] at hsettings
  have hdirectory (content : Text) : (configured content).directory = ["p"] := rfl
  refine ⟨hsame s' _ given _ ((hdirectory _).trans (hdirectory _).symm) hcontents' nofun ?_
    (.inr ⟨hinteger, hinteger'⟩), _, hsettings, congrArg Yaml.str (by decide), rfl,
    congrArg Yaml.bool (by decide), rfl⟩
  rw [hinput, hinput']
  intro o f
  cases o with
  | root => exact .inl (by cases f <;> rfl)
  | caller => exact .inl rfl
  | environment =>
    cases f with
    | servePort => exact .inr ⟨.caller, by decide, rfl, rfl⟩
    | _ => exact .inl rfl
  | file =>
    cases f with
    | rootDir => exact .inr ⟨.root, by decide, rfl, rfl⟩
    | servePort => exact .inr ⟨.caller, by decide, rfl, rfl⟩
    | _ => exact .inl rfl

end RouteCatalog.Settings
