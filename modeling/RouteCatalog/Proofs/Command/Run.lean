import RouteCatalog.Command.Run
import RouteCatalog.Proofs.Console.Markup

/-!
# Runs step by step

Two things can be said of a step, whatever was reported before. Where its result is known, the step
leads from one store to another with that result (`Leads`). Where it only prints, it goes through if
the console accepts everything that it prints, and breaks off otherwise (`Shows`). Both are carried
along a run from each step to the next, for any console.
-/

namespace RouteCatalog.Command

variable {α β : Type} {s s' s'' : Store} {w : Surroundings}

theorem bind_of_ok {x : Run α} {p p' : Progress} {a : α} (h : x p = .ok a p') (f : α → Run β) :
    (x >>= f) p = f a p' := by
  change EStateM.bind x f p = f a p'
  rw [EStateM.bind, h]

theorem bind_of_error {x : Run α} {p p' : Progress} {stop : Stop} (h : x p = .error stop p')
    (f : α → Run β) : (x >>= f) p = .error stop p' := by
  change EStateM.bind x f p = .error stop p'
  rw [EStateM.bind, h]

/-! ## Steps with a known result -/

/-- How a step ends, with what was done until then. -/
def ended (p : Progress) : Except Stop α → EStateM.Result Stop Progress α
  | .ok a => .ok a p
  | .error stop => .error stop p

/-- The step leads from `s` to `s'` and has this result, whatever was reported before. -/
def Leads (x : Run α) (s : Store) (result : Except Stop α) (s' : Store) : Prop :=
  ∀ reported, ∃ reported', x ⟨s, reported⟩ = ended ⟨s', reported'⟩ result

namespace Leads

variable {x : Run α} {f : α → Run β} {a : α} {stop : Stop} {result : Except Stop β}

theorem pure (a : α) (s : Store) : Leads (pure a) s (.ok a) s := fun reported ↦ ⟨reported, rfl⟩

theorem throw (stop : Stop) (s : Store) : Leads (throw stop : Run α) s (.error stop) s :=
  fun reported ↦ ⟨reported, rfl⟩

/-- After a step the run goes on in the store that the step has left. -/
theorem bind (hx : Leads x s (.ok a) s') (hf : Leads (f a) s' result s'') :
    Leads (x >>= f) s result s'' := fun reported ↦ by
  obtain ⟨between, hx⟩ := hx reported
  obtain ⟨reported', hf⟩ := hf between
  exact ⟨reported', (bind_of_ok hx f).trans hf⟩

theorem bind_error (hx : Leads x s (.error stop) s') (f : α → Run β) :
    Leads (x >>= f) s (.error stop) s' := fun reported ↦ by
  obtain ⟨reported', hx⟩ := hx reported
  exact ⟨reported', bind_of_error hx f⟩

/-- A run that looks at what was done so far. -/
theorem get_bind {f : Progress → Run β} (h : ∀ reported, Leads (f ⟨s, reported⟩) s result s') :
    Leads (get >>= f) s result s' := fun reported ↦ h reported reported

end Leads

theorem leads_report (t : Text) (s : Store) : Leads (Run.report t) s (.ok ()) s :=
  fun reported ↦ ⟨reported ++ t, rfl⟩

theorem leads_breakOff (why : Break) (s : Store) :
    Leads (Run.breakOff why : Run α) s (.error (.broken why)) s := .throw _ s

theorem leads_change (act : Store → Store × α) (s : Store) :
    Leads (Run.change act) s (.ok (act s).2) (act s).1 := fun reported ↦ ⟨reported, rfl⟩

/-! ## Steps that print -/

/-- The step prints, and leads from `s` to `s'`: it goes through if the console accepts all that it
prints, and else it breaks off. -/
structure Shows (w : Surroundings) (x : Run α) (s : Store) (printed : List Text) (s' : Store) :
    Prop where
  through : (∀ t ∈ printed, w.render.Accepts t) → ∃ a, Leads x s (.ok a) s'
  breaks : (∃ t ∈ printed, ¬ w.render.Accepts t) →
    ∃ fault, Leads x s (.error (.broken (.markup fault))) s'

namespace Shows

variable {x : Run α} {f : α → Run β} {a : α} {printed printed' : List Text}

theorem of_leads (h : Leads x s (.ok a) s') : Shows w x s [] s' where
  through _ := ⟨a, h⟩
  breaks := fun ⟨_, hmem, _⟩ ↦ absurd hmem List.not_mem_nil

/-- What a run prints step after step. -/
theorem bind (hx : Shows w x s printed s') (hf : ∀ a, Shows w (f a) s' printed' s') :
    Shows w (x >>= f) s (printed ++ printed') s' where
  through h := by
    rw [List.forall_mem_append] at h
    obtain ⟨a, hx⟩ := hx.through h.1
    obtain ⟨b, hf⟩ := (hf a).through h.2
    exact ⟨b, hx.bind hf⟩
  breaks := by
    rintro ⟨t, hmem, ht⟩
    by_cases hfirst : ∀ t ∈ printed, w.render.Accepts t
    · obtain ⟨a, hx⟩ := hx.through hfirst
      have hlater : t ∈ printed' := (List.mem_append.mp hmem).resolve_left fun h ↦ ht (hfirst t h)
      obtain ⟨fault, hf⟩ := (hf a).breaks ⟨t, hlater, ht⟩
      exact ⟨fault, hx.bind hf⟩
    · push Not at hfirst
      obtain ⟨fault, hx⟩ := hx.breaks hfirst
      exact ⟨fault, hx.bind_error f⟩

theorem of_leads_bind (hx : Leads x s (.ok a) s') (hf : Shows w (f a) s' printed s'') :
    Shows w (x >>= f) s printed s'' where
  through h := (hf.through h).imp fun _ ↦ hx.bind
  breaks h := (hf.breaks h).imp fun _ ↦ hx.bind

theorem bind_pure (hx : Shows w x s printed s') (g : α → β) :
    Shows w (x >>= fun a ↦ Pure.pure (g a)) s printed s' :=
  List.append_nil printed ▸ hx.bind fun a ↦ .of_leads (.pure (g a) s')

/-- A choice between two runs. -/
theorem ite {y : Run α} {c : Prop} [Decidable c] (hx : Shows w x s printed s')
    (hy : Shows w y s printed' s') :
    Shows w (if c then x else y) s (if c then printed else printed') s' := by
  split
  · exact hx
  · exact hy

end Shows

theorem shows_report (t : Text) (s : Store) : Shows w (Run.report t) s [] s :=
  .of_leads (leads_report t s)

theorem shows_shown (t : Text) (s : Store) : Shows w (Run.shown w t) s [t] s where
  through h := by
    obtain ⟨shown, hshown⟩ := h t List.mem_cons_self
    exact ⟨shown, by rw [Run.shown, hshown]; exact .pure shown s⟩
  breaks := by
    rintro ⟨u, hmem, hbreaks⟩
    rw [List.mem_singleton.mp hmem] at hbreaks
    cases hrender : w.render t with
    | ok shown => exact absurd ⟨shown, hrender⟩ hbreaks
    | error fault => exact ⟨fault, by rw [Run.shown, hrender]; exact leads_breakOff _ s⟩

theorem shows_print (t : Text) (s : Store) : Shows w (Run.print w t) s [t] s :=
  (shows_shown t s).bind fun _ ↦ shows_report _ s

theorem leads_print {t : Text} (h : w.render.Accepts t) (s : Store) :
    Leads (Run.print w t) s (.ok ()) s :=
  have ⟨_, hleads⟩ := (shows_print t s).through (List.forall_mem_singleton.mpr h)
  hleads

theorem exists_leads_print {t : Text} (h : ¬ w.render.Accepts t) (s : Store) :
    ∃ fault, Leads (Run.print w t) s (.error (.broken (.markup fault))) s :=
  (shows_print t s).breaks ⟨t, List.mem_cons_self, h⟩

theorem shows_mapM {f : α → Run β} {lines : α → List Text} (h : ∀ a, Shows w (f a) s (lines a) s)
    (as : List α) : Shows w (as.mapM f) s (as.flatMap lines) s := by
  induction as with
  | nil => exact .of_leads (.pure [] s)
  | cons a as ih =>
    rw [List.mapM_cons, List.flatMap_cons]
    exact (h a).bind fun b ↦ ih.bind_pure (b :: ·)

theorem shows_forIn {line : α → Text} (as : List α) (s : Store) :
    Shows w (forIn as PUnit.unit fun a _ ↦ do
      Run.print w (line a)
      return ForInStep.yield PUnit.unit) s (as.map line) s := by
  induction as with
  | nil => exact .of_leads (.pure PUnit.unit s)
  | cons a as ih =>
    simp only [List.forIn_cons, List.map_cons, bind_assoc, pure_bind]
    exact (shows_print (line a) s).bind fun _ ↦ ih

/-! ## Steps that fail -/

/-- What is said about a fault of the system. -/
def failure (what : Text) (fault : Files.Fault) : Text :=
  "[red]" ++ what ++ " failed:[/red] " ++ fault.message

/-- The break of a run, if it does not stop in the regular way. -/
def Stop.break? : Stop → Option Break
  | .failed => none
  | .broken why => some why

/-- At a fault of the system a run says so and stops; it breaks off if the console does not accept
what it says. -/
theorem exists_leads_fail {fault : Files.Fault} (hsystem : fault.fromSystem = true) (what : Text)
    (s : Store) :
    ∃ stop, Leads (Run.fail w what fault : Run α) s (.error stop) s ∧
      (w.render.Accepts (failure what fault) → stop.break? = none) ∧
        (¬ w.render.Accepts (failure what fault) → ∃ why, stop.break? = some (.markup why)) := by
  unfold Run.fail
  rw [if_pos hsystem]
  by_cases h : w.render.Accepts (failure what fault)
  · exact ⟨.failed, (leads_print h s).bind (.throw _ s), fun _ ↦ rfl, fun hnot ↦ absurd h hnot⟩
  · obtain ⟨why, hleads⟩ := exists_leads_print h s
    exact ⟨.broken (.markup why), hleads.bind_error _, fun hprints ↦ absurd hprints h,
      fun _ ↦ ⟨why, rfl⟩⟩

/-! ## Outcomes -/

variable {args : List Text} {verbose : Bool} {task : Task}
  {x : Run (Option Serving)} {printed : List Text}

/-- How an outcome ends when some texts are printed before: with the given exit code, unless the
console does not accept one of them. -/
structure Outcome.Ends (o : Outcome) (w : Surroundings) (exitCode : Nat) (printed : List Text) :
    Prop where
  shown : (∀ t ∈ printed, w.render.Accepts t) → o.exitCode = exitCode ∧ o.broken = none
  breaks : (∃ t ∈ printed, ¬ w.render.Accepts t) →
    o.exitCode = 1 ∧ ∃ why, o.broken = some (.markup why)

/-- A command line whose run stops fails; the run breaks off if it does not stop in the regular way.
-/
theorem run_of_leads_error (hrequest : request s args = .ok ⟨verbose, task⟩) {stop : Stop}
    (h : Leads (Run.task w verbose task) s (.error stop) s') :
    (run w s args).store = s' ∧ (run w s args).exitCode = 1 ∧
      (run w s args).broken = stop.break? := by
  obtain ⟨reported, h⟩ := h []
  simp only [run, hrequest, Outcome.ofRun, EStateM.run, h]
  cases stop with
  | failed => exact ⟨rfl, rfl, rfl⟩
  | broken why => exact ⟨rfl, rfl, rfl⟩

theorem run_of_leads_ok (hrequest : request s args = .ok ⟨verbose, task⟩)
    {serving : Option Serving} (h : Leads (Run.task w verbose task) s (.ok serving) s') :
    (run w s args).store = s' ∧ (run w s args).exitCode = 0 ∧ (run w s args).broken = none := by
  obtain ⟨reported, h⟩ := h []
  simp only [run, hrequest, Outcome.ofRun, EStateM.run, h]
  exact ⟨rfl, rfl, rfl⟩

/-- A command line that prints succeeds if the console accepts all that it prints. -/
theorem run_of_shows (hrequest : request s args = .ok ⟨verbose, task⟩)
    (h : Shows w (Run.task w verbose task) s printed s') :
    (run w s args).store = s' ∧ (run w s args).Ends w 0 printed := by
  by_cases hprinted : ∀ t ∈ printed, w.render.Accepts t
  · obtain ⟨serving, hleads⟩ := h.through hprinted
    obtain ⟨hstore, hends⟩ := run_of_leads_ok hrequest hleads
    exact ⟨hstore, fun _ ↦ hends, fun ⟨t, hmem, ht⟩ ↦ absurd (hprinted t hmem) ht⟩
  · push Not at hprinted
    obtain ⟨why, hleads⟩ := h.breaks hprinted
    obtain ⟨hstore, hcode, hbroken⟩ := run_of_leads_error hrequest hleads
    obtain ⟨t, hmem, ht⟩ := hprinted
    exact ⟨hstore, fun hall ↦ absurd (hall t hmem) ht, fun _ ↦ ⟨hcode, why, hbroken⟩⟩

end RouteCatalog.Command
