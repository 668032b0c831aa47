import RouteCatalog.Proofs.Settings.Save
import RouteCatalog.Settings.Load

/-!
# Settings, layer by layer

A setting may be written in four places. Each place is looked at before the places are put on top of
each other: a value is taken for what its setting needs, whether or not a higher place hides it
(`Source.taken`). So a hidden value never shows in the settings, but one that cannot be taken stops
the loading (`Input.Readable`). If nothing stops it, every setting is what the highest place gives
that gives anything (`load_of_readable`).
-/

namespace RouteCatalog.Settings

variable {s : Store} {root : Option Text} {environment : Environment} {given : Layer}
  {found : Contents} {x y : Input} {f : Setting}

/-! ## Where settings are written -/

/-- A place where settings are written. -/
inductive Source
  /-- The root that the caller asks for. -/
  | root
  /-- The other values of the caller. -/
  | caller
  | environment
  | file
  deriving DecidableEq

namespace Source

/-- All sources, the highest first. -/
def all : List Source := [.root, .caller, .environment, .file]

/-- The sources above a source. -/
def above : Source → List Source
  | .root => []
  | .caller => [.root]
  | .environment => [.root, .caller]
  | .file => [.root, .caller, .environment]

/-- What a value that is written in a source gives to a setting. The lower two sources turn it into
what the setting needs, a truth value for the comparison and an integer for the port; a port of the
file that is no integer gives nothing. -/
def taken : Source → Setting → Yaml → Except Fault (Option Yaml)
  | .environment, .servePort, .str t =>
    match Numeral.read t with
    | .ok n => .ok (some (.int n))
    | .error fault => .error (.environmentPort fault)
  | .file, .servePort, v => (integerOf v).map (·.map .int)
  | .environment, .incremental, v | .file, .incremental, v => .ok (some (.bool (truthOf v)))
  | _, _, v => .ok (some v)

end Source

/-- The entries of a mapping; what is no mapping has none. -/
def Contents.listed : Contents → List (Yaml × Yaml)
  | .entries listed => listed
  | _ => []

/-- What settings are loaded from. -/
structure Input where
  /-- The root that the caller asks for. -/
  root : Option Path
  /-- The other values of the caller. -/
  given : Layer
  environment : Environment
  entries : List (Yaml × Yaml)

namespace Input

/-- The values as they are written in a source. -/
def written (x : Input) : Source → Layer
  | .root, .rootDir => x.root.map fun p ↦ .str p.toText
  | .root, _ => none
  | .caller, f => x.given.withoutNulls f
  | .environment, .servePort => (x.environment.servePort.filter (!·.isEmpty)).map .str
  | .environment, .incremental => (x.environment.incremental.filter (!·.isEmpty)).map .str
  | .environment, _ => none
  | .file, f => Layer.ofEntries x.entries f

/-- What a source gives. -/
def gives (x : Input) (o : Source) : Layer := fun f ↦
  (x.written o f).bind fun v ↦ (o.taken f v).toOption.join

/-- The settings by the highest source that gives them, above the defaults. -/
def settings (x : Input) (directory : Text) : Settings := fun f ↦
  (Source.all.findSome? fun o ↦ x.gives o f).getD (defaults directory f)

/-- Every value that is written is taken, also one that another source hides. -/
def Readable (x : Input) : Prop :=
  ∀ o f v, x.written o f = some v → ∃ w, o.taken f v = .ok w

/-- Two inputs differ only in values that are hidden in both by a source above. -/
def DifferHidden (x y : Input) : Prop :=
  ∀ o f, x.written o f = y.written o f ∨
    ∃ higher ∈ o.above, (x.written higher f).isSome ∧ (y.written higher f).isSome

end Input

/-- The port of the environment is an integer, if it is given. -/
def Environment.HasInteger (e : Environment) : Prop :=
  ∀ t, e.servePort = some t → t ≠ [] → ∃ n, Numeral.read t = .ok n

/-- The port among the entries of a settings file is not infinite. -/
def HasFinite (entries : List (Yaml × Yaml)) : Prop :=
  ∀ negative, Layer.ofEntries entries .servePort ≠ some (.float (.infinite negative))

/-! ## What is taken -/

theorem exists_integerOf_iff {v : Yaml} :
    (∃ n, integerOf v = .ok n) ↔ ∀ negative, v ≠ .float (.infinite negative) := by
  constructor
  · rintro ⟨n, h⟩ negative rfl
    cases h
  · intro h
    cases v with
    | float value =>
      cases value with
      | infinite negative => exact absurd rfl (h negative)
      | _ => exact ⟨_, rfl⟩
    | _ => exact ⟨_, rfl⟩

namespace Input

theorem written_port_iff {v : Yaml} : x.written .environment .servePort = some v ↔
    ∃ t, x.environment.servePort = some t ∧ t ≠ [] ∧ v = .str t := by
  rw [written, Option.map_eq_some_iff]
  constructor
  · rintro ⟨t, ht, rfl⟩
    obtain ⟨hsome, hne⟩ := Option.filter_eq_some_iff.mp ht
    exact ⟨t, hsome, by simpa using hne, rfl⟩
  · rintro ⟨t, hsome, hne, rfl⟩
    exact ⟨t, Option.filter_eq_some_iff.mpr ⟨hsome, by simpa using hne⟩, rfl⟩

theorem readable_iff : x.Readable ↔ x.environment.HasInteger ∧ HasFinite x.entries := by
  constructor
  · intro h
    constructor
    · intro t ht hne
      obtain ⟨w, hw⟩ := h .environment .servePort _ (written_port_iff.mpr ⟨t, ht, hne, rfl⟩)
      rw [Source.taken] at hw
      split at hw
      · next n hn => exact ⟨n, hn⟩
      · cases hw
    · intro negative hinfinite
      obtain ⟨w, hw⟩ := h .file .servePort _ hinfinite
      cases hw
  · rintro ⟨hinteger, hfinite⟩ o f v hv
    cases o with
    | root => exact ⟨_, rfl⟩
    | caller => exact ⟨_, rfl⟩
    | environment =>
      cases f with
      | servePort =>
        obtain ⟨t, ht, hne, rfl⟩ := written_port_iff.mp hv
        obtain ⟨n, hn⟩ := hinteger t ht hne
        rw [Source.taken, hn]
        exact ⟨_, rfl⟩
      | incremental => exact ⟨_, rfl⟩
      | _ => exact ⟨_, rfl⟩
    | file =>
      cases f with
      | servePort =>
        obtain ⟨n, hn⟩ := exists_integerOf_iff.mpr fun negative hinfinite ↦
          hfinite negative (hinfinite ▸ hv)
        rw [Source.taken, hn]
        exact ⟨_, rfl⟩
      | _ => exact ⟨_, rfl⟩

end Input

/-! ## Layers -/

theorem fileLayer_of_hasFinite (h : HasFinite x.entries) :
    fileLayer x.entries = .ok (x.gives .file) := by
  have hgives (f : Setting) : x.gives .file f =
      (Layer.ofEntries x.entries f).bind fun v ↦ (Source.taken .file f v).toOption.join := rfl
  have hitself (f : Setting) (hf : ∀ v, Source.taken .file f v = .ok (some v)) :
      Layer.ofEntries x.entries f = x.gives .file f := by
    rw [hgives]
    simp only [hf]
    exact (Option.bind_fun_some _).symm
  have hincremental : (Layer.ofEntries x.entries .incremental).map (fun v ↦ .bool (truthOf v)) =
      x.gives .file .incremental := Option.map_eq_bind
  rw [fileLayer]
  cases hv : Layer.ofEntries x.entries .servePort with
  | none =>
    refine congrArg Except.ok (funext fun f ↦ ?_)
    cases f with
    | servePort =>
      rw [hgives, hv]
      rfl
    | incremental => exact hincremental
    | _ => exact hitself _ fun _ ↦ rfl
  | some v =>
    obtain ⟨n, hn⟩ := exists_integerOf_iff.mpr fun negative hinfinite ↦
      h negative (hinfinite ▸ hv)
    simp only [hn]
    refine congrArg Except.ok (funext fun f ↦ ?_)
    cases f with
    | servePort =>
      rw [hgives, hv, Option.bind_some, Source.taken, hn]
      rfl
    | incremental => exact hincremental
    | _ => exact hitself _ fun _ ↦ rfl

theorem fileLayer_of_infinite {entries : List (Yaml × Yaml)} {negative : Bool}
    (h : Layer.ofEntries entries .servePort = some (.float (.infinite negative))) :
    fileLayer entries = .error .infinitePort := by
  rw [fileLayer, h]
  rfl

theorem environmentLayer_of_hasInteger (h : x.environment.HasInteger) :
    environmentLayer x.environment = .ok (x.gives .environment) := by
  have hincremental : x.gives .environment .incremental =
      (x.environment.incremental.filter (!·.isEmpty)).map fun t ↦ .bool (truthOfText t) := by
    rw [Input.gives, Input.written]
    cases x.environment.incremental.filter (!·.isEmpty) <;> rfl
  rw [environmentLayer]
  cases ht : x.environment.servePort.filter (!·.isEmpty) with
  | none =>
    refine congrArg Except.ok (funext fun f ↦ ?_)
    cases f with
    | servePort =>
      rw [Input.gives, Input.written, ht]
      rfl
    | incremental => exact hincremental.symm
    | _ => rfl
  | some t =>
    obtain ⟨hsome, hne⟩ := Option.filter_eq_some_iff.mp ht
    obtain ⟨n, hn⟩ := h t hsome (by simpa using hne)
    simp only [hn]
    refine congrArg Except.ok (funext fun f ↦ ?_)
    cases f with
    | servePort =>
      rw [Input.gives, Input.written, ht, Option.map_some, Option.bind_some, Source.taken, hn]
      rfl
    | incremental => exact hincremental.symm
    | _ => rfl

theorem environmentLayer_of_fault {e : Environment} {t : Text} {fault : Numeral.Fault}
    (ht : e.servePort = some t) (hne : t ≠ []) (hfault : Numeral.read t = .error fault) :
    environmentLayer e = .error (.environmentPort fault) := by
  have hport : e.servePort.filter (!·.isEmpty) = some t :=
    Option.filter_eq_some_iff.mpr ⟨ht, by simpa using hne⟩
  rw [environmentLayer, hport]
  simp only [hfault]
  rfl

/-! ## Loading -/

/-- What the settings of a root are loaded from, when its settings file has been looked at. -/
def inputOf (s : Store) (root : Option Text) (environment : Environment) (given : Layer)
    (found : Contents) : Input :=
  ⟨explicitRoot s root, given, environment, found.listed⟩

theorem findSome?_all {α : Type} (g : Source → Option α) : Source.all.findSome? g =
    (g .root).or ((g .caller).or ((g .environment).or (g .file))) := by
  simp only [Source.all, List.findSome?_cons, List.findSome?_nil]
  cases g .root <;> cases g .caller <;> cases g .environment <;> cases g .file <;> rfl

section

variable (hroot : Files.check (root.getD []) = .ok ())
  (hcontents : contents s (fileIn (rootFor s root)) = .ok found)
  (hx : x = inputOf s root environment given found)
include hroot hcontents hx

/-- The file is looked at before the environment, and both before anything is put together. -/
theorem load_eq : load s root environment given =
    (fileLayer x.entries).bind fun low ↦ (environmentLayer x.environment).map fun middle ↦
      ofLayer (workingPath s).toText
        ((x.written .root).above ((x.written .caller).above (middle.above low))) := by
  have hempty : Except.ok Layer.none = fileLayer [] := by
    rw [fileLayer]
    exact congrArg Except.ok (funext fun f ↦ by cases f <;> rfl)
  have hsteps {low : Except Fault Layer} {top : Layer} (hlow : low = fileLayer x.entries)
      (htop : ∀ f, top f = x.written .root f) :
      (do
        let low ← low
        let middle ← environmentLayer environment
        return ofLayer (workingPath s).toText
          (top.above (given.withoutNulls.above (middle.above low)))) =
        (fileLayer x.entries).bind fun low ↦ (environmentLayer environment).map fun middle ↦
          ofLayer (workingPath s).toText
            ((x.written .root).above (given.withoutNulls.above (middle.above low))) := by
    rw [hlow, funext htop]
    cases fileLayer x.entries with
    | error => rfl
    | ok => cases environmentLayer environment <;> rfl
  subst hx
  rw [rootFor] at hcontents
  rw [load, hroot, hcontents]
  cases found with
  | entries =>
    refine hsteps rfl fun f ↦ ?_
    rw [inputOf]
    cases explicitRoot s root <;> cases f <;> rfl
  | _ =>
    refine hsteps hempty fun f ↦ ?_
    rw [inputOf]
    cases explicitRoot s root <;> cases f <;> rfl

/-- **If no written value is in the way, every setting is that of the highest source that gives
it.** -/
theorem load_of_readable (hreadable : x.Readable) :
    load s root environment given = .ok (x.settings (workingPath s).toText) := by
  obtain ⟨hinteger, hfinite⟩ := Input.readable_iff.mp hreadable
  have htop : x.gives .root = x.written .root := funext fun f ↦ Option.bind_fun_some _
  have hcaller : x.gives .caller = x.written .caller := funext fun f ↦ Option.bind_fun_some _
  rw [load_eq hroot hcontents hx, fileLayer_of_hasFinite hfinite,
    environmentLayer_of_hasInteger hinteger, ← htop, ← hcaller]
  refine congrArg Except.ok (funext fun f ↦ ?_)
  rw [Input.settings, findSome?_all]
  rfl

theorem load_of_infinite (h : ¬ HasFinite x.entries) :
    load s root environment given = .error .infinitePort := by
  simp only [HasFinite, not_forall, not_not] at h
  obtain ⟨negative, hinfinite⟩ := h
  rw [load_eq hroot hcontents hx, fileLayer_of_infinite hinfinite]
  rfl

theorem load_of_environment_fault {t : Text} {fault : Numeral.Fault}
    (hfinite : HasFinite x.entries) (ht : x.environment.servePort = some t) (hne : t ≠ [])
    (hfault : Numeral.read t = .error fault) :
    load s root environment given = .error (.environmentPort fault) := by
  rw [load_eq hroot hcontents hx, fileLayer_of_hasFinite hfinite,
    environmentLayer_of_fault ht hne hfault]
  rfl

end

/-! ## Hidden values -/

theorem Source.exists_of_taken {o : Source} {v : Yaml} {w : Option Yaml} (ho : o ≠ .file)
    (h : o.taken f v = .ok w) : ∃ u, w = some u := by
  unfold Source.taken at h
  split at h
  · split at h
    · exact ⟨_, (Except.ok.inj h).symm⟩
    · cases h
  · exact absurd rfl ho
  · exact ⟨_, (Except.ok.inj h).symm⟩
  · exact absurd rfl ho
  · exact ⟨_, (Except.ok.inj h).symm⟩

namespace Input

theorem gives_ne_none {o : Source} (hx : x.Readable) (ho : o ≠ .file)
    (hwritten : (x.written o f).isSome) : x.gives o f ≠ none := by
  obtain ⟨v, hv⟩ := Option.isSome_iff_exists.mp hwritten
  obtain ⟨w, hw⟩ := hx o f v hv
  obtain ⟨u, rfl⟩ := Source.exists_of_taken ho hw
  rw [gives, hv, Option.bind_some, hw]
  exact Option.some_ne_none u

theorem gives_congr {o : Source} (h : x.written o f = y.written o f) :
    x.gives o f = y.gives o f := by
  rw [gives, gives, h]

theorem DifferHidden.gives_eq {o : Source} (h : x.DifferHidden y) (hx : x.Readable)
    (hnone : ∀ higher ∈ o.above, x.gives higher f = none) : x.gives o f = y.gives o f := by
  rcases h o f with hsame | ⟨higher, hmem, hsome, -⟩
  · exact gives_congr hsame
  · have hfile : higher ≠ .file := by
      rintro rfl
      cases o <;> simp [Source.above] at hmem
    exact absurd (hnone higher hmem) (gives_ne_none hx hfile hsome)

/-- Inputs that differ only in hidden values give the same settings, when all values are taken. -/
theorem DifferHidden.settings_eq (h : x.DifferHidden y) (hx : x.Readable) (directory : Text) :
    x.settings directory = y.settings directory := by
  have hcongr {a a' b b' : Option Yaml} (ha : a = a') (hb : a = none → b = b') :
      a.or b = a'.or b' := by
    subst ha
    cases a with
    | none => exact hb rfl
    | some => rfl
  funext f
  rw [settings, settings, findSome?_all, findSome?_all]
  refine congrArg (Option.getD · _) ?_
  -- Source by source from the top, as long as nothing is given.
  refine hcongr (h.gives_eq hx (List.forall_mem_nil _)) fun hroot ↦ ?_
  have hcaller : ∀ higher ∈ Source.above .caller, x.gives higher f = none :=
    List.forall_mem_singleton.mpr hroot
  refine hcongr (h.gives_eq hx hcaller) fun hnone ↦ ?_
  have henvironment : ∀ higher ∈ Source.above .environment, x.gives higher f = none :=
    List.forall_mem_cons.mpr ⟨hroot, List.forall_mem_singleton.mpr hnone⟩
  refine hcongr (h.gives_eq hx henvironment) fun hnone' ↦ ?_
  exact h.gives_eq hx (List.forall_mem_cons.mpr
    ⟨hroot, List.forall_mem_cons.mpr ⟨hnone, List.forall_mem_singleton.mpr hnone'⟩⟩)

end Input

end RouteCatalog.Settings
