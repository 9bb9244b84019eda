/-
The full meaning of applying a plan, for every surface: which calls are made, in which order and on
which states, and what the report says of each step.

Calls are observed by a surface that logs them. What the logging surface sees is split into one run
for each step, and every run means what its step says, given the runs before it.
-/
import CoveragePages.Proofs.Plan.Calls

namespace CoveragePages

variable {σ : Type} [DisplaySurface σ]

/-! ## Calls that were made -/

/-- A call that was made: the states before and after it, and its result. -/
structure Event (σ : Type) [DisplaySurface σ] where
  call : Call
  before : σ
  after : σ
  result : Except SurfaceError (Option Nat)
  run_eq : call.run before = (after, result)

/-- The rows that a call answered with. -/
def Event.rows? (e : Event σ) : Option Nat :=
  match e.result with
  | .ok rows => rows
  | .error _ => none

/-- The error that a call failed with. -/
def Event.error? (e : Event σ) : Option SurfaceError :=
  match e.result with
  | .ok _ => none
  | .error err => some err

/-- Calls that lead from one state to another, each made on the state that the one before it left. -/
inductive Linked : σ → List (Event σ) → σ → Prop
  | nil {s : σ} : Linked s [] s
  | cons {e : Event σ} {events : List (Event σ)} {t : σ} : Linked e.after events t → Linked e.before (e :: events) t

theorem Linked.append {s t u : σ} {a b : List (Event σ)} (ha : Linked s a t) (hb : Linked t b u) :
    Linked s (a ++ b) u := by
  induction ha with
  | nil => exact hb
  | cons _ ih => exact .cons (ih hb)

/-! ## A surface that logs calls -/

/-- A surface together with the calls that were made on it, in order. -/
structure Logged (σ : Type) [DisplaySurface σ] where
  state : σ
  log : List (Event σ)

namespace Logged

/-- Makes a call on the surface and logs it. -/
def make (call : Call) (l : Logged σ) : Logged σ where
  state := (call.run l.state).1
  log := l.log ++ [⟨call, l.state, (call.run l.state).1, (call.run l.state).2, rfl⟩]

instance : DisplaySurface (Logged σ) where
  setText target text l := (l.make (.setText target text), (DisplaySurface.setText target text l.state).2)
  setClass target cls l := (l.make (.setClass target cls), (DisplaySurface.setClass target cls l.state).2)
  bindTemplate slot records l :=
    (l.make (.bindTemplate slot records), (DisplaySurface.bindTemplate slot records l.state).2)
  activateSort table intent l :=
    (l.make (.activateSort table intent), (DisplaySurface.activateSort table intent l.state).2)

theorem run_eq (call : Call) (l : Logged σ) : call.run l = (l.make call, (call.run l.state).2) := by
  cases call <;> rfl

end Logged

/-! ## The calls of a step -/

/-- Calls, those of them that were made, and the answer: all of them, with the first rows that one
answered with, or those up to and including the first that failed. -/
inductive Made : List Call → List (Event σ) → Except SurfaceError (Option Nat) → Prop
  | all {events : List (Event σ)} : (∀ e ∈ events, e.error? = none) →
      Made (events.map (·.call)) events (.ok (events.findSome? (·.rows?)))
  | upTo {events : List (Event σ)} {last : Event σ} {rest : List Call} {err : SurfaceError} :
      (∀ e ∈ events, e.error? = none) → last.error? = some err →
      Made ((events ++ [last]).map (·.call) ++ rest) (events ++ [last]) (.error err)

theorem Made.cons {e : Event σ} {rows : Option Nat} (he : e.result = .ok rows) {calls : List Call}
    {events : List (Event σ)} {result : Except SurfaceError (Option Nat)} (h : Made calls events result) :
    Made (e.call :: calls) (e :: events) (result.map rows.or) := by
  have herror : e.error? = none := by rw [Event.error?, he]
  have hrows : e.rows? = rows := by rw [Event.rows?, he]
  cases h with
  | all hall =>
    have hfind : rows.or (events.findSome? (·.rows?)) = (e :: events).findSome? (·.rows?) := by
      rw [List.findSome?_cons, hrows]
      cases rows <;> rfl
    rw [Except.map, hfind]
    exact .all (List.forall_mem_cons.2 ⟨herror, hall⟩)
  | @upTo init last rest err hinit hlast =>
    have hall : ∀ e' ∈ e :: init, e'.error? = none := List.forall_mem_cons.2 ⟨herror, hinit⟩
    exact Made.upTo hall hlast

/-- Making calls up to the first that fails, on a surface and with a log. -/
theorem makeCalls_logged (calls : List Call) (l : Logged σ) : ∃ events : List (Event σ),
    makeCalls calls l = (⟨(makeCalls calls l.state).1, l.log ++ events⟩, (makeCalls calls l.state).2) ∧
      Linked l.state events (makeCalls calls l.state).1 ∧ Made calls events (makeCalls calls l.state).2 := by
  induction calls generalizing l with
  | nil =>
    have hmade : Made [] ([] : List (Event σ)) (.ok none) := .all (List.forall_mem_nil _)
    exact ⟨[], by rw [List.append_nil]; rfl, .nil, hmade⟩
  | cons call rest ih =>
    let e : Event σ := ⟨call, l.state, (call.run l.state).1, (call.run l.state).2, rfl⟩
    have hmake : l.make call = ⟨e.after, l.log ++ [e]⟩ := rfl
    have hrun : call.run l.state = (e.after, e.result) := rfl
    have hlogged : call.run l = (⟨e.after, l.log ++ [e]⟩, e.result) := by rw [Logged.run_eq, hmake]
    unfold makeCalls
    rw [hrun, hlogged]
    cases hresult : e.result with
    | error err =>
      have herror : e.error? = some err := by rw [Event.error?, hresult]
      have hnone : ∀ e' ∈ ([] : List (Event σ)), e'.error? = none := List.forall_mem_nil _
      have hmade : Made ([e].map (·.call) ++ rest) [e] (.error err) := Made.upTo hnone herror
      exact ⟨[e], rfl, Linked.cons (e := e) .nil, hmade⟩
    | ok rows =>
      obtain ⟨events, heq, hlinked, hmade⟩ := ih ⟨e.after, l.log ++ [e]⟩
      refine ⟨e :: events, ?_, Linked.cons (e := e) hlinked, hmade.cons hresult⟩
      simp only [heq, List.append_assoc, List.cons_append, List.nil_append]

/-! ## The run of a step -/

/-- What became of a step: the calls that were made for it, and its outcome in the report. -/
structure StepRun (σ : Type) [DisplaySurface σ] where
  step : RenderStep
  events : List (Event σ)
  outcome : StepOutcome

/-- A run among some that bound a slot, and whose call failed. -/
def FailedToBind (runs : List (StepRun σ)) (slot : String) : Prop :=
  ∃ run ∈ runs, run.step.slot? = some slot ∧ ∃ e ∈ run.events, e.error? ≠ none

/-- A step that needs a slot which an earlier step failed to bind. -/
def Suppressed (earlier : List (StepRun σ)) (step : RenderStep) : Prop :=
  ∃ slot, step.required? = some slot ∧ FailedToBind earlier slot

/-- The rows that the report has for a step: those that its call answered with, if it binds a slot. -/
def returnedRows (step : RenderStep) (events : List (Event σ)) : Option Nat :=
  match step with
  | .bind _ => events.findSome? (·.rows?)
  | _ => none

/-- A run does what its step says, given the runs before it: it is skipped and makes no call, or makes
all calls of the step, or makes them up to and including the first that fails. -/
inductive StepRun.Means (earlier : List (StepRun σ)) : StepRun σ → Prop
  | skipped {step : RenderStep} {slot : String} : step.required? = some slot → FailedToBind earlier slot →
      Means earlier ⟨step, [], ⟨step.label, .skipped, none, some (slot ++ " was not rendered"), none⟩⟩
  | applied {step : RenderStep} {events : List (Event σ)} : ¬ Suppressed earlier step →
      events.map (·.call) = step.calls → (∀ e ∈ events, e.error? = none) →
      Means earlier ⟨step, events, ⟨step.label, .applied, returnedRows step events, none, none⟩⟩
  | failed {step : RenderStep} {events : List (Event σ)} {last : Event σ} {err : SurfaceError} :
      ¬ Suppressed earlier step → (events ++ [last]).map (·.call) <+: step.calls →
      (∀ e ∈ events, e.error? = none) → last.error? = some err →
      Means earlier ⟨step, events ++ [last], ⟨step.label, .failed, none, some err.message, some err⟩⟩

theorem Event.rows?_eq_none {e : Event σ} (h : ∀ slot records, e.call ≠ .bindTemplate slot records) :
    e.rows? = none := by
  have hrun := congrArg Prod.snd e.run_eq
  have hmap : ∀ r : Except SurfaceError Unit, e.result = r.map (fun _ => none) → e.rows? = none := by
    rintro (err | ⟨⟩) hr
    · rw [rows?, hr]; rfl
    · rw [rows?, hr]; rfl
  cases hcall : e.call with
  | bindTemplate slot records => exact absurd hcall (h slot records)
  | setText | setClass | activateSort => rw [hcall] at hrun; exact hmap _ hrun.symm

/-- Only a step that binds a slot makes calls that answer with rows. -/
theorem findSome?_rows {step : RenderStep} {events : List (Event σ)} (h : events.map (·.call) = step.calls) :
    events.findSome? (·.rows?) = returnedRows step events := by
  have hnone : (∀ call ∈ step.calls, ∀ slot records, call ≠ .bindTemplate slot records) →
      events.findSome? (·.rows?) = none := by
    intro hcalls
    refine List.findSome?_eq_none_iff.2 fun e he => Event.rows?_eq_none (hcalls e.call ?_)
    rw [← h]
    exact List.mem_map_of_mem he
  cases step with
  | bind b => rfl
  | header writes =>
    refine hnone fun call hcall slot records => ?_
    obtain ⟨w, -, rfl⟩ := List.mem_map.1 hcall
    unfold DisplayWrite.call
    cases w.kind <;> (intro h; cases h)
  | activateSort s =>
    refine hnone fun call hcall slot records => ?_
    rw [List.mem_singleton.1 hcall]
    intro h
    cases h

theorem failedToBind_append {earlier : List (StepRun σ)} {run : StepRun σ} {slot : String} :
    FailedToBind (earlier ++ [run]) slot ↔
      FailedToBind earlier slot ∨ run.step.slot? = some slot ∧ ∃ e ∈ run.events, e.error? ≠ none := by
  unfold FailedToBind
  constructor
  · rintro ⟨r, hr, h⟩
    rcases List.mem_append.1 hr with hr | hr
    · exact .inl ⟨r, hr, h⟩
    · rw [List.mem_singleton.1 hr] at h
      exact .inr h
  · rintro (⟨r, hr, h⟩ | h)
    · exact ⟨r, List.mem_append_left _ hr, h⟩
    · exact ⟨run, List.mem_append_right _ (List.mem_singleton_self run), h⟩

/-- One step: it is run as it says, and the slots that failed after it are those of the runs so far. -/
theorem applyStep_logged {failed : List String} {earlier : List (StepRun σ)}
    (hfailed : ∀ slot, slot ∈ failed ↔ FailedToBind earlier slot) (step : RenderStep) (l : Logged σ) :
    ∃ run : StepRun σ, run.step = step ∧ run.Means earlier ∧
      applyStep failed step l =
        (⟨(applyStep failed step l.state).1, l.log ++ run.events⟩, (applyStep failed step l.state).2) ∧
      Linked l.state run.events (applyStep failed step l.state).1 ∧
      (applyStep failed step l.state).2.2 = run.outcome ∧
      ∀ slot, slot ∈ (applyStep failed step l.state).2.1 ↔ FailedToBind (earlier ++ [run]) slot := by
  by_cases hskip : Suppressed earlier step
  · -- no call, and the same slots failed
    obtain ⟨slot, hslot, hbind⟩ := hskip
    have hmem : slot ∈ failed := (hfailed slot).2 hbind
    refine ⟨⟨step, [], _⟩, rfl, .skipped hslot hbind, ?_⟩
    rw [applyStep_skip hslot hmem, applyStep_skip hslot hmem]
    refine ⟨by rw [List.append_nil], .nil, rfl, fun s => ?_⟩
    rw [failedToBind_append, hfailed]
    constructor
    · exact .inl
    · rintro (h | ⟨-, e, he, -⟩)
      · exact h
      · cases he
  · have hrun : ∀ slot, step.required? = some slot → slot ∉ failed :=
      fun slot hslot hmem => hskip ⟨slot, hslot, (hfailed slot).1 hmem⟩
    obtain ⟨events, heq, hlinked, hmade⟩ := makeCalls_logged step.calls l
    rw [applyStep_run hrun, applyStep_run hrun, heq]
    generalize makeCalls step.calls l.state = ran at hlinked hmade
    obtain ⟨after, result⟩ := ran
    generalize hcalls : step.calls = calls at hmade
    cases hmade with
    | all hall =>
      -- no call failed, so no slot did
      refine ⟨⟨step, events, _⟩, rfl, .applied hskip hcalls.symm hall, rfl, hlinked, ?_, fun s => ?_⟩
      · rw [← findSome?_rows hcalls.symm]
        rfl
      · rw [failedToBind_append, failedAfter, hfailed]
        constructor
        · exact .inl
        · rintro (h | ⟨-, e, he, herror⟩)
          · exact h
          · exact absurd (hall e he) herror
    | @upTo init last rest err hinit hlast =>
      refine ⟨⟨step, init ++ [last], _⟩, rfl, .failed hskip ⟨rest, hcalls.symm⟩ hinit hlast, rfl, hlinked, rfl,
        fun s => ?_⟩
      have herror : ∃ e ∈ init ++ [last], e.error? ≠ none :=
        ⟨last, List.mem_append_right _ (List.mem_singleton_self last), by rw [hlast]; exact Option.some_ne_none err⟩
      -- the slot of this step, if it has one, is the only new one
      rw [failedToBind_append, failedAfter, List.mem_append, hfailed, Option.mem_toList]
      constructor
      · rintro (h | h)
        · exact .inr ⟨h, herror⟩
        · exact .inl h
      · rintro (h | ⟨h, -⟩)
        · exact .inr h
        · exact .inl h

/-! ## The runs of a plan -/

/-- Runs that mean what their steps say, each given all runs before it. -/
def MeansFrom (earlier : List (StepRun σ)) : List (StepRun σ) → Prop
  | [] => True
  | run :: rest => run.Means earlier ∧ MeansFrom (earlier ++ [run]) rest

theorem MeansFrom.split {earlier runs before after : List (StepRun σ)} {run : StepRun σ} (h : MeansFrom earlier runs)
    (heq : runs = before ++ run :: after) : run.Means (earlier ++ before) := by
  induction before generalizing earlier runs with
  | nil =>
    rw [heq] at h
    rw [List.append_nil]
    exact h.1
  | cons r before ih =>
    rw [heq] at h
    have h' := ih h.2 rfl
    rwa [List.append_assoc] at h'

/-- All steps: each is run as it says, on the state that the runs before it left. -/
theorem applySteps_logged {failed : List String} {earlier : List (StepRun σ)}
    (hfailed : ∀ slot, slot ∈ failed ↔ FailedToBind earlier slot) (steps : List RenderStep) (l : Logged σ) :
    ∃ runs : List (StepRun σ), runs.map (·.step) = steps ∧ MeansFrom earlier runs ∧
      applySteps failed steps l =
        (⟨(applySteps failed steps l.state).1, l.log ++ runs.flatMap (·.events)⟩, (applySteps failed steps l.state).2) ∧
      Linked l.state (runs.flatMap (·.events)) (applySteps failed steps l.state).1 ∧
      (applySteps failed steps l.state).2 = runs.map (·.outcome) := by
  induction steps generalizing failed earlier l with
  | nil => exact ⟨[], rfl, trivial, by rw [List.flatMap_nil, List.append_nil]; rfl, .nil, rfl⟩
  | cons step rest ih =>
    obtain ⟨run, hstep, hmeans, heq, hlinked, houtcome, hfailed'⟩ := applyStep_logged hfailed step l
    obtain ⟨runs, hsteps, hall, heqs, hlinkeds, houtcomes⟩ :=
      ih hfailed' ⟨(applyStep failed step l.state).1, l.log ++ run.events⟩
    refine ⟨run :: runs, ?_, ⟨hmeans, hall⟩, ?_, ?_, ?_⟩
    · rw [List.map_cons, hstep, hsteps]
    · rw [applySteps_cons, applySteps_cons, heq, List.flatMap_cons, ← List.append_assoc]
      simp only [heqs]
    · rw [applySteps_cons, List.flatMap_cons]
      exact hlinked.append hlinkeds
    · rw [applySteps_cons, List.map_cons, houtcome, houtcomes]

/-! ## What the report answers -/

theorem cause_of_means {earlier : List (StepRun σ)} {run : StepRun σ} (h : run.Means earlier) :
    run.outcome.cause.toList = run.events.filterMap (·.error?) := by
  have hnone : ∀ events : List (Event σ), (∀ e ∈ events, e.error? = none) → events.filterMap (·.error?) = [] :=
    fun events => List.filterMap_eq_nil_iff.2
  cases h with
  | skipped => rfl
  | applied _ _ hall => exact (hnone _ hall).symm
  | failed _ _ hall hlast =>
    rw [List.filterMap_append, hnone _ hall, List.filterMap_cons, hlast]
    rfl

theorem errors_of_means {earlier runs : List (StepRun σ)} (h : MeansFrom earlier runs) :
    (runs.map (·.outcome)).filterMap (·.cause) = (runs.flatMap (·.events)).filterMap (·.error?) := by
  induction runs generalizing earlier with
  | nil => rfl
  | cons run rest ih =>
    rw [List.map_cons, List.flatMap_cons, List.filterMap_append, ← cause_of_means h.1, ← ih h.2, List.filterMap_cons]
    cases run.outcome.cause <;> rfl

/-- Only a step that binds a slot has the label of one. -/
theorem label_eq_bindLabel {step : RenderStep} {slot : String} :
    step.label = bindLabel slot ↔ step.slot? = some slot := by
  -- the labels of other steps do not start with a `b`
  have hhead : ∀ {text : String} {c : Char}, text.toList.head? = some c → c ≠ 'b' → text ≠ bindLabel slot := by
    rintro _ c hc hb rfl
    rw [bindLabel, String.toList_append, show "bind ".toList = ['b', 'i', 'n', 'd', ' '] from rfl] at hc
    cases hc
    exact hb rfl
  cases step with
  | bind b =>
    show bindLabel b.slot = bindLabel slot ↔ some b.slot = some slot
    rw [bindLabel, bindLabel, String.append_right_inj, Option.some_inj]
  | header writes =>
    constructor
    · exact fun h => absurd h (hhead (show "header".toList.head? = some 'h' from rfl) (by decide))
    · intro h; cases h
  | activateSort s =>
    constructor
    · intro h
      refine absurd h (hhead (c := 's') ?_ (by decide))
      rw [RenderStep.label, String.toList_append]
      rfl
    · intro h; cases h

theorem label_of_means {earlier : List (StepRun σ)} {run : StepRun σ} (h : run.Means earlier) :
    run.outcome.step = run.step.label := by
  cases h <;> rfl

theorem rows?_of_means {earlier runs : List (StepRun σ)} (h : MeansFrom earlier runs) (slot : String) :
    ((runs.map (·.outcome)).find? (·.step == bindLabel slot)).bind (·.rows) =
      (runs.find? (·.step.slot? == some slot)).bind (·.outcome.rows) := by
  induction runs generalizing earlier with
  | nil => rfl
  | cons run rest ih =>
    have hlabel : (run.outcome.step == bindLabel slot) = (run.step.slot? == some slot) := by
      rw [Bool.eq_iff_iff, beq_iff_eq, beq_iff_eq, label_of_means h.1, label_eq_bindLabel]
    rw [List.map_cons, List.find?_cons, List.find?_cons, hlabel]
    cases run.step.slot? == some slot with
    | true => rfl
    | false => exact ih h.2

/-- The full meaning of applying a plan to a surface in a state. The calls that are made, as a log
shows them, lead from that state to the final one, each on the state that the one before it left.
They fall into one run for each step, in the order of the plan; every run means what its step says,
and the report has its outcome. The report is complete if every step was applied, its errors are
those of the failed calls, and it has the rows of a slot from the first step that binds it. -/
theorem apply_meaning (plan : RenderPlan) (state : σ) :
    ∃ (runs : List (StepRun σ)) (final : σ) (report : ApplyReport),
      plan.apply state = (final, report) ∧
      plan.apply (⟨state, []⟩ : Logged σ) = (⟨final, runs.flatMap (·.events)⟩, report) ∧
      Linked state (runs.flatMap (·.events)) final ∧
      runs.map (·.step) = plan.steps ∧ report.outcomes = runs.map (·.outcome) ∧
      (∀ before run after, runs = before ++ run :: after → run.Means before) ∧
      (report.isComplete = true ↔ ∀ run ∈ runs, run.outcome.status = .applied) ∧
      report.errors = (runs.flatMap (·.events)).filterMap (·.error?) ∧
      ∀ slot, report.rows? slot = (runs.find? (·.step.slot? == some slot)).bind (·.outcome.rows) := by
  have hfailed : ∀ slot, slot ∈ [] ↔ FailedToBind ([] : List (StepRun σ)) slot := by
    intro slot
    constructor
    · intro h; cases h
    · rintro ⟨run, hrun, -⟩; cases hrun
  obtain ⟨runs, hsteps, hall, heq, hlinked, houtcomes⟩ := applySteps_logged hfailed plan.steps (⟨state, []⟩ : Logged σ)
  refine ⟨runs, _, _, apply_eq plan state, ?_, hlinked, hsteps, houtcomes, ?_, ?_, ?_, ?_⟩
  · rw [apply_eq, heq]
    rfl
  · exact fun before run after h => hall.split h
  · simp only [ApplyReport.isComplete, houtcomes, List.all_map, List.all_eq_true, Function.comp, beq_iff_eq]
  · rw [ApplyReport.errors, houtcomes, errors_of_means hall]
  · intro slot
    rw [ApplyReport.rows?, houtcomes, rows?_of_means hall]

end CoveragePages
