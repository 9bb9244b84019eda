/-
Applying a plan to a surface, step by step, and the report of what happened. A step that fails is
not undone and stops nothing but itself and the sorts that need its slot.
-/
import CoveragePages.Plan.Basic

namespace CoveragePages

/-! ## Reports -/

/-- How a step went. -/
inductive StepStatus where
  | applied
  | failed
  | skipped
  deriving DecidableEq

def StepStatus.name : StepStatus → String
  | applied => "applied"
  | failed => "failed"
  | skipped => "skipped"

/-- What became of a step. -/
structure StepOutcome where
  step : String
  status : StepStatus
  /-- The rows of a binding that succeeded. -/
  rows : Option Nat := none
  /-- What went wrong, in words. -/
  error : Option String := none
  /-- The error of the surface, if one was the cause. -/
  cause : Option SurfaceError := none
  deriving DecidableEq

namespace StepOutcome

/-- The outcome of a step that was run. -/
def ofResult (step : String) : Except SurfaceError (Option Nat) → StepOutcome
  | .ok rows => { step, status := .applied, rows }
  | .error e => { step, status := .failed, error := some e.message, cause := some e }

/-- The outcome of a step that was not run. -/
def skip (step reason : String) : StepOutcome := { step, status := .skipped, error := some reason }

/-- The outcome as JSON; what is absent is left out. -/
def toJson (o : StepOutcome) : Json :=
  .object
    ([("step", .string o.step), ("status", .string o.status.name)] ++
      (o.rows.map fun n => ("rows", Json.ofNat n)).toList ++
      (o.error.map fun e => ("error", Json.string e)).toList)

end StepOutcome

/-- What happened when a plan was applied, one outcome for each step. -/
structure ApplyReport where
  outcomes : List StepOutcome
  deriving DecidableEq

namespace ApplyReport

/-- Whether every step was applied. -/
def isComplete (report : ApplyReport) : Bool := report.outcomes.all (·.status == .applied)

/-- The errors of the surface, in order. -/
def errors (report : ApplyReport) : List SurfaceError := report.outcomes.filterMap (·.cause)

/-- The rows of the first step that binds a slot. -/
def rows? (report : ApplyReport) (slot : String) : Option Nat :=
  (report.outcomes.find? (·.step == bindLabel slot)).bind (·.rows)

def toJson (report : ApplyReport) : Json :=
  .object [("outcomes", .array (report.outcomes.map StepOutcome.toJson))]

end ApplyReport

/-! ## Application -/

section

variable {σ : Type} [DisplaySurface σ]

/-- Carries out a write. -/
def DisplayWrite.run (w : DisplayWrite) (state : σ) : σ × Except SurfaceError Unit :=
  match w.kind with
  | .text => DisplaySurface.setText w.target w.value state
  | .class_ => DisplaySurface.setClass w.target w.value state

/-- Carries out writes in order, up to the first that fails. -/
def runWrites : List DisplayWrite → σ → σ × Except SurfaceError Unit
  | [], state => (state, .ok ())
  | w :: rest, state =>
    match w.run state with
    | (state, .ok ()) => runWrites rest state
    | (state, .error e) => (state, .error e)

/-- Applies steps in order, given the slots that failed to bind so far. -/
def applySteps : List String → List RenderStep → σ → σ × List StepOutcome
  | _, [], state => (state, [])
  | failed, step :: rest, state =>
    match step with
    | .bind b =>
      match DisplaySurface.bindTemplate b.slot b.records state with
      | (state, .ok rows) =>
        let (final, outcomes) := applySteps failed rest state
        (final, .ofResult step.label (.ok (some rows)) :: outcomes)
      | (state, .error e) =>
        let (final, outcomes) := applySteps (b.slot :: failed) rest state
        (final, .ofResult step.label (.error e) :: outcomes)
    | .header writes =>
      let (state, result) := runWrites writes state
      let (final, outcomes) := applySteps failed rest state
      (final, .ofResult step.label (result.map fun _ => none) :: outcomes)
    | .activateSort s =>
      if s.requires ∈ failed then
        let (final, outcomes) := applySteps failed rest state
        (final, .skip step.label (s.requires ++ " was not rendered") :: outcomes)
      else
        let (state, result) := DisplaySurface.activateSort s.table s.intent state
        let (final, outcomes) := applySteps failed rest state
        (final, .ofResult step.label (result.map fun _ => none) :: outcomes)

/-- Applies a plan to a surface. A sort is skipped if the slot it needs failed to bind before. -/
def RenderPlan.apply (plan : RenderPlan) (state : σ) : σ × ApplyReport :=
  let (final, outcomes) := applySteps [] plan.steps state
  (final, ⟨outcomes⟩)

end

end CoveragePages
