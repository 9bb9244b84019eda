/-
The calls that a plan makes on a surface. Every step stands for a list of calls that are made in
order up to the first that fails; applying a plan is one round of `applyStep` for each step. Two
surfaces that answer alike, as long as their states are related, therefore give equal reports.
-/
import CoveragePages.Plan.Apply

namespace CoveragePages

/-! ## Calls -/

/-- A call of an operation of a surface. -/
inductive Call where
  | setText (target text : String)
  | setClass (target cls : String)
  | bindTemplate (slot : String) (records : List Record)
  | activateSort (table : String) (intent : SortIntent)

/-- The call that carries out a write. -/
def DisplayWrite.call (w : DisplayWrite) : Call :=
  match w.kind with
  | .text => .setText w.target w.value
  | .class_ => .setClass w.target w.value

/-- The calls of a step, in order. -/
def RenderStep.calls : RenderStep → List Call
  | bind b => [.bindTemplate b.slot b.records]
  | header writes => writes.map DisplayWrite.call
  | activateSort s => [.activateSort s.table s.intent]

/-- The slot that a step fills. -/
def RenderStep.slot? : RenderStep → Option String
  | bind b => some b.slot
  | _ => none

/-- The slot that must not have failed for a step to be run. -/
def RenderStep.required? : RenderStep → Option String
  | activateSort s => some s.requires
  | _ => none

section

variable {σ : Type} [DisplaySurface σ]

/-- Makes a call. Only filling a slot answers with a number of rows. -/
def Call.run (call : Call) (state : σ) : σ × Except SurfaceError (Option Nat) :=
  match call with
  | setText target text =>
    ((DisplaySurface.setText target text state).1, (DisplaySurface.setText target text state).2.map fun _ => none)
  | setClass target cls =>
    ((DisplaySurface.setClass target cls state).1, (DisplaySurface.setClass target cls state).2.map fun _ => none)
  | bindTemplate slot records =>
    ((DisplaySurface.bindTemplate slot records state).1, (DisplaySurface.bindTemplate slot records state).2.map some)
  | activateSort table intent =>
    ((DisplaySurface.activateSort table intent state).1,
      (DisplaySurface.activateSort table intent state).2.map fun _ => none)

/-- Makes calls in order, whatever becomes of each. -/
def runCalls : List Call → σ → σ × List (Except SurfaceError (Option Nat))
  | [], state => (state, [])
  | call :: rest, state =>
    ((runCalls rest (call.run state).1).1, (call.run state).2 :: (runCalls rest (call.run state).1).2)

/-- Makes calls in order, up to the first that fails. -/
def makeCalls : List Call → σ → σ × Except SurfaceError (Option Nat)
  | [], state => (state, .ok none)
  | call :: rest, state =>
    match call.run state with
    | (state, .error e) => (state, .error e)
    | (state, .ok rows) => ((makeCalls rest state).1, (makeCalls rest state).2.map rows.or)

/-! ## Steps -/

/-- The slots that failed so far, after a step that was run. -/
def failedAfter (failed : List String) (step : RenderStep) : Except SurfaceError (Option Nat) → List String
  | .ok _ => failed
  | .error _ => step.slot?.toList ++ failed

/-- Applies one step, given the slots that failed so far; answers with those that failed after it. -/
def applyStep (failed : List String) (step : RenderStep) (state : σ) : σ × List String × StepOutcome :=
  match step.required?.filter (· ∈ failed) with
  | some slot => (state, failed, .skip step.label (slot ++ " was not rendered"))
  | none =>
    ((makeCalls step.calls state).1, failedAfter failed step (makeCalls step.calls state).2,
      .ofResult step.label (makeCalls step.calls state).2)

theorem applyStep_skip {failed : List String} {step : RenderStep} {slot : String} (hstep : step.required? = some slot)
    (h : slot ∈ failed) (state : σ) :
    applyStep failed step state = (state, failed, .skip step.label (slot ++ " was not rendered")) := by
  have hfilter : step.required?.filter (· ∈ failed) = some slot := by
    rw [hstep]
    exact Option.filter_some_pos (decide_eq_true h)
  rw [applyStep, hfilter]

theorem applyStep_run {failed : List String} {step : RenderStep}
    (h : ∀ slot, step.required? = some slot → slot ∉ failed) (state : σ) :
    applyStep failed step state = ((makeCalls step.calls state).1,
      failedAfter failed step (makeCalls step.calls state).2, .ofResult step.label (makeCalls step.calls state).2) := by
  have hfilter : step.required?.filter (· ∈ failed) = none := by
    cases hstep : step.required? with
    | none => rfl
    | some slot => exact Option.filter_some_neg (by simpa using h slot hstep)
  rw [applyStep, hfilter]

theorem makeCalls_singleton (call : Call) (state : σ) : makeCalls [call] state = call.run state := by
  unfold makeCalls
  rcases h : call.run state with ⟨after, e | rows⟩
  · rfl
  · simp only [makeCalls, Except.map, Option.or_none]

theorem makeCalls_writes (writes : List DisplayWrite) (state : σ) :
    makeCalls (writes.map DisplayWrite.call) state =
      ((runWrites writes state).1, (runWrites writes state).2.map fun _ => none) := by
  induction writes generalizing state with
  | nil => rfl
  | cons w rest ih =>
    have hrun : w.call.run state = ((w.run state).1, (w.run state).2.map fun _ => none) := by
      unfold DisplayWrite.call DisplayWrite.run
      cases w.kind <;> rfl
    rw [List.map_cons, makeCalls, hrun, runWrites]
    rcases w.run state with ⟨after, e | ⟨⟩⟩
    · rfl
    · simp only [Except.map, ih]
      rcases runWrites rest after with ⟨final, e | ⟨⟩⟩ <;> rfl

/-- Applying steps is applying the first one, and then the others. -/
theorem applySteps_cons (failed : List String) (step : RenderStep) (rest : List RenderStep) (state : σ) :
    applySteps failed (step :: rest) state =
      ((applySteps (applyStep failed step state).2.1 rest (applyStep failed step state).1).1,
        (applyStep failed step state).2.2 ::
          (applySteps (applyStep failed step state).2.1 rest (applyStep failed step state).1).2) := by
  conv => lhs; unfold applySteps
  cases step with
  | bind b =>
    rw [applyStep_run (by rintro slot ⟨⟩)]
    simp only [RenderStep.calls, makeCalls_singleton, Call.run]
    rcases DisplaySurface.bindTemplate b.slot b.records state with ⟨after, e | rows⟩ <;> rfl
  | header writes =>
    rw [applyStep_run (by rintro slot ⟨⟩)]
    simp only [RenderStep.calls, makeCalls_writes]
    rcases runWrites writes state with ⟨after, e | ⟨⟩⟩ <;> rfl
  | activateSort s =>
    by_cases h : s.requires ∈ failed
    · rw [applyStep_skip rfl h]
      simp only [if_pos h]
    · have hrun : ∀ slot, (RenderStep.activateSort s).required? = some slot → slot ∉ failed := by
        rintro slot hslot
        cases hslot
        exact h
      rw [applyStep_run hrun]
      simp only [if_neg h, RenderStep.calls, makeCalls_singleton, Call.run]
      rcases DisplaySurface.activateSort s.table s.intent state with ⟨after, e | ⟨⟩⟩ <;> rfl

/-- Applying a plan is applying its steps, with no slot failed at the start. -/
theorem apply_eq (plan : RenderPlan) (state : σ) :
    plan.apply state = ((applySteps [] plan.steps state).1, ⟨(applySteps [] plan.steps state).2⟩) := rfl

/-! ## Surfaces that answer alike -/

variable {τ : Type} [DisplaySurface τ]

/-- A relation between the states of two surfaces that answer every call alike in related states, and
keep them related. -/
def Agree (R : σ → τ → Prop) : Prop :=
  ∀ (call : Call) (s : σ) (t : τ), R s t → (call.run s).2 = (call.run t).2 ∧ R (call.run s).1 (call.run t).1

variable {R : σ → τ → Prop}

theorem Agree.runCalls (hR : Agree R) (calls : List Call) {s : σ} {t : τ} (h : R s t) :
    (runCalls calls s).2 = (runCalls calls t).2 ∧ R (runCalls calls s).1 (runCalls calls t).1 := by
  induction calls generalizing s t with
  | nil => exact ⟨rfl, h⟩
  | cons call rest ih =>
    obtain ⟨hresult, hstate⟩ := hR call s t h
    obtain ⟨hresults, hfinal⟩ := ih hstate
    simp only [CoveragePages.runCalls]
    exact ⟨by rw [hresult, hresults], hfinal⟩

theorem Agree.makeCalls (hR : Agree R) (calls : List Call) {s : σ} {t : τ} (h : R s t) :
    (makeCalls calls s).2 = (makeCalls calls t).2 ∧ R (makeCalls calls s).1 (makeCalls calls t).1 := by
  induction calls generalizing s t with
  | nil => exact ⟨rfl, h⟩
  | cons call rest ih =>
    obtain ⟨hresult, hstate⟩ := hR call s t h
    unfold CoveragePages.makeCalls
    generalize call.run s = ranS at hresult hstate
    generalize call.run t = ranT at hresult hstate
    obtain ⟨s', result⟩ := ranS
    obtain ⟨t', result'⟩ := ranT
    cases hresult
    cases result with
    | error e => exact ⟨rfl, hstate⟩
    | ok rows =>
      obtain ⟨hresults, hfinal⟩ := ih hstate
      exact ⟨by simp only [hresults], hfinal⟩

theorem Agree.applyStep (hR : Agree R) (failed : List String) (step : RenderStep) {s : σ} {t : τ} (h : R s t) :
    (applyStep failed step s).2 = (applyStep failed step t).2 ∧
      R (applyStep failed step s).1 (applyStep failed step t).1 := by
  obtain ⟨hresult, hstate⟩ := hR.makeCalls step.calls h
  unfold CoveragePages.applyStep
  split
  · exact ⟨rfl, h⟩
  · exact ⟨by simp only [hresult], hstate⟩

/-- Applying steps to surfaces that answer alike gives the same outcomes. -/
theorem Agree.applySteps (hR : Agree R) (failed : List String) (steps : List RenderStep) {s : σ} {t : τ} (h : R s t) :
    (applySteps failed steps s).2 = (applySteps failed steps t).2 ∧
      R (applySteps failed steps s).1 (applySteps failed steps t).1 := by
  induction steps generalizing failed s t with
  | nil => exact ⟨rfl, h⟩
  | cons step rest ih =>
    obtain ⟨hstep, hstate⟩ := hR.applyStep failed step h
    rw [applySteps_cons, applySteps_cons]
    obtain ⟨houtcomes, hfinal⟩ := ih (CoveragePages.applyStep failed step s).2.1 hstate
    rw [← hstep]
    exact ⟨by simp only [houtcomes], hfinal⟩

end

end CoveragePages
