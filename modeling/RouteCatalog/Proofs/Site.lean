import RouteCatalog.Proofs.Catalog.AllOrNothing
import RouteCatalog.Proofs.Scan
import RouteCatalog.Site

/-!
# The site shows what was persisted

Scans, writers and requests for the page take turns at one store, in any order (`Runs`). A writer
may fail at any stage, and then leaves directories at most; a scan and a request leave nothing. What
a whole run has left is therefore told by the catalog that was persisted last (`Leaves`), and the
page shows the text of that catalog, or what was at the path before the run (`site_republishes`). A
path that has no encoding (`Path.Encodable`) is none of this: nothing is persisted, and what looks
there for the page is not prepared for the fault.

The writer and the site find the path of the snapshot each for itself, the writer from the root and
the output file (`Snapshot.pathFor`), the site from its settings (`Settings.outputPath`).
-/

namespace RouteCatalog

theorem Settings.outputPath_eq {settings : Settings} {root outputFile : Text}
    (hroot : settings .rootDir = .str root) (hfile : settings .outputFile = .str outputFile) :
    settings.outputPath = .ok (Snapshot.pathFor root outputFile) := by
  rw [outputPath, rootPath, hroot, hfile]
  rfl

/-- Every code point of the path has an encoding. -/
def Path.Encodable (p : Path) : Prop := ∀ c ∈ p.parts.flatten, Files.isEncodable c = true

instance : DecidablePred Path.Encodable := fun p ↦
  inferInstanceAs (Decidable (∀ c ∈ p.parts.flatten, Files.isEncodable c = true))

theorem Path.mem_of_mem_parts_ofText {t : Text} {c : CodePoint}
    (h : c ∈ (ofText t).parts.flatten) : c ∈ t := by
  obtain ⟨name, hname, hc⟩ := List.mem_flatten.mp h
  exact (Text.isInfix_of_mem_splitOn (List.mem_of_mem_filter hname)).subset hc

namespace Snapshot

variable {s s' : Store} {c : Catalog} {root outputFile : Text} {incremental : Bool}
  {written : Option Written}

/-- The path of the snapshot holds no code point that its two texts do not hold. -/
theorem mem_of_mem_pathFor {c : CodePoint} (h : c ∈ (pathFor root outputFile).parts.flatten) :
    c ∈ root ∨ c ∈ outputFile := by
  change c ∈ (Path.append _ _).parts.flatten at h
  rw [Path.append] at h
  split at h
  · rw [List.flatten_append, List.mem_append] at h
    exact h.imp Path.mem_of_mem_parts_ofText Path.mem_of_mem_parts_ofText
  · exact .inr (Path.mem_of_mem_parts_ofText h)

/-- The system takes the path of the snapshot when it has an encoding and the two texts have no null
character. -/
theorem refusal?_pathFor (hroot : root.contains (.ofNat 0) = false)
    (hfile : outputFile.contains (.ofNat 0) = false) (h : (pathFor root outputFile).Encodable) :
    Files.refusal? (pathFor root outputFile).parts.flatten = none := by
  rw [← Bool.not_eq_true, List.contains_iff_mem] at hroot hfile
  exact Files.refusal?_eq_none_iff.mpr ⟨h, fun hnull ↦ (mem_of_mem_pathFor hnull).elim hroot hfile⟩

/-- Whether persisting succeeds or fails, the directories that were there stay. -/
theorem dirs_of_persists (h : Persists s c root outputFile incremental s' written) :
    s'.directory = s.directory ∧ ∀ l, s.node? l = some .dir → s'.node? l = some .dir := by
  cases written with
  | none =>
    have honly := onlyDirectories_of_persists h
    exact ⟨honly.directory, honly.kept⟩
  | some w =>
    cases h with
    | succeeded hmade _ hsteps =>
      have honly := Store.onlyDirectories_of_creates hmade
      have hsame := (replaced_of_done hsteps).1
      exact ⟨hsame.directory.trans honly.directory,
        fun l hdir ↦ (hsame.dir_iff l).mpr (honly.kept l hdir)⟩

end Snapshot

namespace Site

open Snapshot (pathFor)

variable {settings : Settings} {root outputFile : Text} {s t t' : Store}

/-! ## Runs -/

/-- What is done about a snapshot, and what comes of it. -/
inductive Event
  | scanned (outcome : Except Scan.Fault Catalog)
  /-- A catalog is persisted, or that fails. -/
  | persisted (c : Catalog) (written : Option Snapshot.Written)
  | answered (answer : Except Fault Response)

namespace Event

/-- The catalog that is in place after the event, if the event puts one there. -/
def stored? : Event → Option Catalog
  | .persisted c (some _) => some c
  | _ => none

/-- The event is a request. -/
def isRequest : Event → Bool
  | .answered _ => true
  | _ => false

end Event

/-- The catalog that was persisted last. -/
def lastStored (events : List Event) : Option Catalog := (events.filterMap Event.stored?).getLast?

theorem lastStored_concat (events : List Event) (event : Event) :
    lastStored (events ++ [event]) = event.stored?.or (lastStored events) := by
  rw [lastStored, List.filterMap_append]
  cases h : event.stored? with
  | none =>
    rw [List.filterMap_cons_none h, List.filterMap_nil, List.append_nil]
    rfl
  | some c =>
    rw [List.filterMap_cons_some h, List.filterMap_nil, List.getLast?_concat]
    rfl

/-- One event: a scan of the root, a catalog that is persisted or not, or a request for the page of
a site with these settings. -/
inductive Happens (settings : Settings) (root outputFile : Text) : Store → Event → Store → Prop
  | scan (s : Store) (m : Moment) :
    Happens settings root outputFile s
      (.scanned (scan s Dialect.builtIn root none m.stamp)) s
  /-- Persisting may fail at any stage. -/
  | persist {s s' : Store} {c : Catalog} {incremental : Bool} {written : Option Snapshot.Written}
    (h : Snapshot.Persists s c root outputFile incremental s' written) :
    Happens settings root outputFile s (.persisted c written) s'
  | get (s : Store) :
    Happens settings root outputFile s (.answered (respond s settings "GET" page)) s

theorem happens_persist (settings : Settings) (s : Store) (c : Catalog) (root outputFile : Text)
    (incremental : Bool) (tag : Text) :
    Happens settings root outputFile s
      (.persisted c (Snapshot.persist s c root outputFile incremental tag).2.toOption)
      (Snapshot.persist s c root outputFile incremental tag).1 :=
  .persist (Snapshot.persists_persist s c root outputFile incremental tag)

/-- Events in a row, with the store that results. -/
inductive Runs (settings : Settings) (root outputFile : Text) (s : Store) :
    List Event → Store → Prop
  | nil : Runs settings root outputFile s [] s
  | snoc {events : List Event} {event : Event} {t t' : Store}
    (h : Runs settings root outputFile s events t)
    (hlast : Happens settings root outputFile t event t') :
    Runs settings root outputFile s (events ++ [event]) t'

/-- An event of a run happens in the store that the events before it have left. -/
theorem Runs.exists_happens {events earlier later : List Event} {event : Event}
    (h : Runs settings root outputFile s events t) (hsplit : events = earlier ++ event :: later) :
    ∃ before after, Runs settings root outputFile s earlier before ∧
      Happens settings root outputFile before event after := by
  induction h generalizing later with
  | nil => exact absurd hsplit (by simp)
  | @snoc events last before after hruns hlast ih =>
    rcases List.eq_nil_or_concat later with rfl | ⟨later, other, rfl⟩
    · obtain ⟨rfl, hevent⟩ := List.append_inj' hsplit rfl
      obtain rfl := List.singleton_inj.mp hevent
      exact ⟨before, after, hruns, hlast⟩
    · rw [List.concat_eq_append, ← List.cons_append, ← List.append_assoc] at hsplit
      exact ih (List.append_inj' hsplit rfl).1

theorem Runs.withoutRequests {events : List Event} (h : Runs settings root outputFile s events t) :
    Runs settings root outputFile s (events.filter fun event ↦ !event.isRequest) t := by
  induction h with
  | nil => exact .nil
  | @snoc events event before after _ hlast ih =>
    rw [List.filter_append]
    cases hlast with
    | scan m => exact ih.snoc (.scan _ m)
    | persist hpersists => exact ih.snoc (.persist hpersists)
    | get => exact (List.append_nil _).symm ▸ ih

/-! ## What a run leaves -/

/-- What a run has left at the path of the snapshot, by the catalog that was persisted last. -/
structure Leaves (p : Path) (s t : Store) (last : Option Catalog) : Prop where
  directory : t.directory = s.directory
  kept : ∀ l, s.node? l = some .dir → t.node? l = some .dir
  /-- As long as no catalog was persisted, every file is as it was, and there is no new one. -/
  untouched : last = none →
    ∀ l content, t.node? l = some (.file content) ↔ s.node? l = some (.file content)
  /-- The text of the last catalog is where the path leads, and every other file is as it was. -/
  stored : ∀ c, last = some c → ∃ destination, t.locate p = .ok destination ∧
    t.node? destination = some (.file (Utf8.encode c.text)) ∧
      ∀ l ≠ destination, ∀ content,
        t.node? l = some (.file content) ↔ s.node? l = some (.file content)

namespace Leaves

variable {p : Path} {last : Option Catalog} {c : Catalog} {incremental : Bool}

theorem refl (p : Path) (s : Store) : Leaves p s s none :=
  ⟨rfl, fun _ ↦ id, fun _ _ _ ↦ Iff.rfl, fun _ h ↦ by cases h⟩

theorem of_onlyDirectories {q : Path} (h : Leaves p s t last) (honly : t.OnlyDirectories q t') :
    Leaves p s t' last where
  directory := honly.directory.trans h.directory
  kept l hdir := honly.kept l (h.kept l hdir)
  untouched hlast l content := (honly.file_iff l content).trans (h.untouched hlast l content)
  stored c hlast := by
    obtain ⟨destination, hlocate, hfile, hothers⟩ := h.stored c hlast
    exact ⟨destination, Store.locate_of_dirs honly.kept honly.directory hlocate,
      (honly.file_iff _ _).mpr hfile,
      fun l hl content ↦ (honly.file_iff l content).trans (hothers l hl content)⟩

theorem of_stored {w : Snapshot.Written} (h : Leaves (pathFor root outputFile) s t last)
    (hpersists : Snapshot.Persists t c root outputFile incremental t' (some w)) :
    Leaves (pathFor root outputFile) s t' (some c) := by
  obtain ⟨hdirectory, hkept⟩ := Snapshot.dirs_of_persists hpersists
  obtain ⟨hpath, ⟨destination, hlocate, hfile, hothers⟩, -⟩ :=
    Snapshot.stored_of_persists hpersists
  rw [hpath] at hlocate
  refine ⟨hdirectory.trans h.directory, fun l hdir ↦ hkept l (h.kept l hdir),
    fun hnone ↦ (by cases hnone), fun _ heq ↦ ?_⟩
  cases heq
  refine ⟨destination, hlocate, hfile, fun l hl content ↦ (hothers l hl content).trans ?_⟩
  cases hlast : last with
  | none => exact h.untouched hlast l content
  | some earlier =>
    -- the path leads to one place throughout, so the earlier text was there
    obtain ⟨place, hplace, -, hbefore⟩ := h.stored earlier hlast
    obtain rfl : place = destination :=
      Except.ok.inj ((Store.locate_of_dirs hkept hdirectory hplace).symm.trans hlocate)
    exact hbefore l hl content

theorem of_happens {event : Event} (h : Leaves (pathFor root outputFile) s t last)
    (hevent : Happens settings root outputFile t event t') :
    Leaves (pathFor root outputFile) s t' (event.stored?.or last) := by
  cases hevent with
  | scan m => exact h
  | get => exact h
  | @persist _ c incremental written hpersists =>
    cases written with
    | none => exact h.of_onlyDirectories (Snapshot.onlyDirectories_of_persists hpersists)
    | some w => exact h.of_stored hpersists

/-- What can be read at the path once a catalog was persisted is its text. -/
theorem read_of_stored (h : Leaves p s t last) (hlast : last = some c) :
    t.read p = .ok (Utf8.encode c.text) := by
  obtain ⟨destination, hlocate, hfile, -⟩ := h.stored c hlast
  exact Store.read_eq_ok_iff.mpr ⟨destination, hlocate, hfile⟩

theorem read_of_untouched (h : Leaves p s t last) (hlast : last = none) {bytes : Bytes} :
    t.read p = .ok bytes ↔ ∃ l, t.locate p = .ok l ∧ s.node? l = some (.file bytes) := by
  rw [Store.read_eq_ok_iff]
  exact exists_congr fun l ↦ and_congr_right fun _ ↦ h.untouched hlast l bytes

end Leaves

/-- **What a run leaves**, by induction on its events. -/
theorem Runs.leaves {events : List Event} (h : Runs settings root outputFile s events t) :
    Leaves (pathFor root outputFile) s t (lastStored events) := by
  induction h with
  | nil => exact .refl _ s
  | snoc _ hlast ih =>
    rw [lastStored_concat]
    exact ih.of_happens hlast

/-! ## What the page shows -/

/-- What a response shows of the file at a path: `s` is the store at the start of the run, `t` the
store at the time of the request. -/
structure Shows (p : Path) (s t : Store) (last : Option Catalog) (response : Response) : Prop where
  present : ∀ bytes, t.read p = .ok bytes → response = { status := 200, body := bytes }
  absent : (∀ bytes, t.read p ≠ .ok bytes) →
    response = { status := 404, body := notice "error" "output.json not found" }
  latest : ∀ c, last = some c → t.read p = .ok (Utf8.encode c.text)
  /-- As long as no catalog was persisted, the bytes are those from before the run. -/
  original : last = none → ∀ bytes,
    t.read p = .ok bytes ↔ ∃ l, t.locate p = .ok l ∧ s.node? l = some (.file bytes)
  decoded : ∀ c, last = some c → c.toJson.Storable → c.toJson.depth ≤ Json.maxDepth →
    ∃ text, Utf8.decode response.body = .ok text ∧ Json.read text = .ok c.toJson

/-- A request for the page is answered by the file at the path of the snapshot. -/
theorem respond_page (hroot : settings .rootDir = .str root)
    (hfile : settings .outputFile = .str outputFile) (t : Store) :
    respond t settings "GET" page = snapshot t (pathFor root outputFile) := by
  rw [respond, if_neg (by decide), if_neg (by decide), Settings.outputPath_eq hroot hfile]

/-- The page at a path that can be given to the system always has a response. -/
theorem snapshot_eq_ok {p : Path} (htaken : Files.refusal? p.parts.flatten = none) (t : Store) :
    ∃ response, snapshot t p = .ok response ∧
      (∀ bytes, t.read p = .ok bytes → response = { status := 200, body := bytes }) ∧
      ((∀ bytes, t.read p ≠ .ok bytes) →
        response = { status := 404, body := notice "error" "output.json not found" }) := by
  rw [snapshot]
  cases hread : t.read p with
  | ok content => exact ⟨_, rfl, fun _ h ↦ by rw [Except.ok.inj h], fun h ↦ absurd rfl (h content)⟩
  | error fault =>
    dsimp only
    rw [if_pos (Store.fromSystem_of_read htaken hread)]
    exact ⟨_, rfl, fun _ h ↦ (by cases h), fun _ ↦ rfl⟩

theorem snapshot_of_not_encodable {p : Path} (h : ¬ p.Encodable) (t : Store) :
    snapshot t p = .error (.store ⟨.unencodable, p.toText, none⟩) := by
  rw [snapshot, Store.read_of_refusal? (Files.refusal?_of_not_encodable h)]
  rfl

theorem Leaves.eq_none_of_not_encodable {p : Path} {last : Option Catalog} (h : Leaves p s t last)
    (hp : ¬ p.Encodable) : last = none := by
  cases hlast : last with
  | none => rfl
  | some c =>
    obtain ⟨destination, hlocate, -⟩ := h.stored c hlast
    rw [Store.locate_of_refusal? (Files.refusal?_of_not_encodable hp)] at hlocate
    cases hlocate

theorem Leaves.shows {p : Path} {last : Option Catalog} (h : Leaves p s t last)
    (htaken : Files.refusal? p.parts.flatten = none) :
    ∃ response, snapshot t p = .ok response ∧ Shows p s t last response := by
  obtain ⟨response, hresponse, hpresent, habsent⟩ := snapshot_eq_ok htaken t
  refine ⟨response, hresponse, hpresent, habsent, fun c ↦ h.read_of_stored,
    fun hlast bytes ↦ h.read_of_untouched hlast, fun c hlast hstorable hdepth ↦ ?_⟩
  rw [hpresent _ (h.read_of_stored hlast)]
  have hplain : Text.Plain c.text := Json.plain_indented 0 c.toJson
  exact ⟨c.text, Utf8.decode_encode hplain,
    Json.read_indented hstorable.unsplit hstorable.distinct hstorable.short hdepth⟩

/-- **The site republishes what was persisted, where the path of the snapshot has an encoding.** In
a run of scans, writers and requests with one root and output file, relative or absolute, every
request is then answered: by the text of the catalog that was persisted last, whatever failed since;
by the bytes from before the run when none was persisted; by a notice when there is no readable
file. A text decodes to its catalog, unless that nests deeper than can be read; the catalogs of
scans can all be stored. Where a code point of the path has no encoding, no request is answered, not
even by the notice, and nothing is persisted. The requests leave the store as it is. -/
theorem site_republishes {events : List Event} (hroot : settings .rootDir = .str root)
    (hfile : settings .outputFile = .str outputFile) (hnull : root.contains (.ofNat 0) = false)
    (hnull' : outputFile.contains (.ofNat 0) = false)
    (h : Runs settings root outputFile s events t) :
    ((pathFor root outputFile).Encodable →
      ∀ earlier answer later, events = earlier ++ .answered answer :: later →
        ∃ before response, Runs settings root outputFile s earlier before ∧
          answer = .ok response ∧
            Shows (pathFor root outputFile) s before (lastStored earlier) response) ∧
    (¬ (pathFor root outputFile).Encodable →
      lastStored events = none ∧
        ∀ earlier answer later, events = earlier ++ .answered answer :: later →
          answer = .error (.store ⟨.unencodable, (pathFor root outputFile).toText, none⟩)) ∧
    (∀ earlier c later, events = earlier ++ .scanned (.ok c) :: later →
      ∃ before, Runs settings root outputFile s earlier before ∧
        (before.Sound → root.Unsplit → c.toJson.Storable)) ∧
    Runs settings root outputFile s (events.filter fun event ↦ !event.isRequest) t := by
  refine ⟨fun hencodable earlier answer later hsplit ↦ ?_, fun hnot ↦
    ⟨h.leaves.eq_none_of_not_encodable hnot, fun earlier answer later hsplit ↦ ?_⟩,
    fun earlier c later hsplit ↦ ?_, h.withoutRequests⟩
  · obtain ⟨before, _, hruns, hevent⟩ := h.exists_happens hsplit
    obtain ⟨response, hresponse, hshows⟩ :=
      hruns.leaves.shows (Snapshot.refusal?_pathFor hnull hnull' hencodable)
    cases hevent with
    | get => exact ⟨before, response, hruns, (respond_page hroot hfile _).trans hresponse, hshows⟩
  · obtain ⟨before, _, -, hevent⟩ := h.exists_happens hsplit
    cases hevent with
    | get => exact (respond_page hroot hfile _).trans (snapshot_of_not_encodable hnot before)
  · obtain ⟨before, after, hruns, hevent⟩ := h.exists_happens hsplit
    refine ⟨before, hruns, fun hs hunsplit ↦ ?_⟩
    generalize hscanned : Event.scanned (.ok c) = event at hevent
    cases hevent with
    | scan m =>
      exact (Scan.storable_toJson hs hunsplit (Scan.unsplit_stamp m)
        (Event.scanned.inj hscanned).symm).1
    | persist => cases hscanned
    | get => cases hscanned

private def siteSettings : Settings
  | .rootDir => .str "/r"
  | .outputFile => .str "new/o"
  | _ => .null

private def siteStore : Store := ⟨.dir "r" (.file "a.js" [101] .empty) .empty, []⟩

private def siteCatalog : Catalog := ⟨"/r", [], [], (Moment.mk 0).stamp⟩

private def siteEvents : List Event :=
  [.answered (.ok { status := 404, body := notice "error" "output.json not found" }),
    .scanned (.ok siteCatalog), .persisted siteCatalog (some ⟨⟨"/", ["r", "new", "o"]⟩, 0, 0⟩),
    .persisted ⟨"/r", [], ["w"], "t"⟩ none,
    .answered (.ok { status := 200, body := Utf8.encode siteCatalog.text })]

private def loneSettings : Settings
  | .rootDir => .str "."
  | .outputFile => .str [.ofNat 0xD800]
  | _ => .null

/-- A request before there is a snapshot, a scan, a writer that makes a directory and succeeds,
another that gives up, and a second request, which shows the catalog of the first writer. Where the
output file is a lone surrogate, a request is not answered. -/
theorem site_republishes_first :
    (∃ t, Runs siteSettings "/r" "new/o" siteStore siteEvents t ∧
      ∃ before, Shows ⟨"/", ["r", "new", "o"]⟩ siteStore before (some siteCatalog)
        { status := 200, body := Utf8.encode siteCatalog.text }) ∧
    respond siteStore loneSettings "GET" page =
      .error (.store ⟨.unencodable, [.ofNat 0xD800], none⟩) := by
  have hsources : Scan.pathsOf siteStore "/r" none = [⟨"/", ["r", "a.js"]⟩] := by decide +kernel
  have hscan : scan siteStore Dialect.builtIn "/r" none (Moment.mk 0).stamp = .ok siteCatalog := by
    refine Scan.scan_eq_ok_iff.mpr ⟨rfl, ⟨[], []⟩, ?_, rfl⟩
    rw [hsources]
    rfl
  have hasked : Runs siteSettings "/r" "new/o" siteStore _ siteStore := .snoc .nil (.get _)
  have hscanned := hasked.snoc (.scan _ ⟨0⟩)
  rw [hscan] at hscanned
  have hstored := hscanned.snoc (happens_persist siteSettings _ siteCatalog "/r" "new/o" false "1")
  have hgivesUp (u : Store) : Snapshot.Persists u ⟨"/r", [], ["w"], "t"⟩ "/r" "new/o" true u none :=
    .stopped .refl
  have hrun : Runs siteSettings "/r" "new/o" siteStore siteEvents _ :=
    (hstored.snoc (.persist (hgivesUp _))).snoc (.get _)
  obtain ⟨hanswers, -⟩ := site_republishes rfl rfl rfl rfl hrun
  obtain ⟨before, response, -, heq, hshows⟩ :=
    hanswers (by decide) (siteEvents.take 4) _ [] rfl
  have hlone : Runs loneSettings "." [.ofNat 0xD800] siteStore _ siteStore := .snoc .nil (.get _)
  obtain ⟨-, hrefused, -⟩ := site_republishes rfl rfl rfl rfl hlone
  refine ⟨⟨_, hrun, before, ?_⟩, (hrefused (by decide)).2 [] _ [] rfl⟩
  rw [Except.ok.inj heq]
  exact hshows

end Site

end RouteCatalog
