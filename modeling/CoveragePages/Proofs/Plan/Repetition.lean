/-
Applying a plan again. On surfaces that hold what they show in places, a plan makes the same calls
every time, since what was done before does not change which calls succeed. Each place then holds
what the last of these calls wrote, after one application as after many.
-/
import CoveragePages.Proofs.Surface.Registers

namespace CoveragePages

open Registers

/-! ## The calls of an application -/

section

variable {σ : Type} [DisplaySurface σ] {R : σ → σ → Prop}

/-- On surfaces that answer alike the same calls of a list are made. -/
theorem Agree.makeCalls_eq (hR : Agree R) (calls : List Call) (s : σ) :
    ∃ made, ∀ t, R s t → (CoveragePages.makeCalls calls t).1 = (CoveragePages.runCalls made t).1 := by
  induction calls generalizing s with
  | nil => exact ⟨[], fun t _ => rfl⟩
  | cons call rest ih =>
    obtain ⟨made, hmade⟩ := ih (call.run s).1
    cases hresult : (call.run s).2 with
    | error e =>
      -- the call fails on every related surface, and no other is made
      refine ⟨[call], fun t h => ?_⟩
      have hfail : call.run t = ((call.run t).1, .error e) := by rw [← hresult, (hR call s t h).1]
      rw [CoveragePages.makeCalls, hfail]
      rfl
    | ok rows =>
      refine ⟨call :: made, fun t h => ?_⟩
      have hok : call.run t = ((call.run t).1, .ok rows) := by rw [← hresult, (hR call s t h).1]
      rw [CoveragePages.makeCalls, hok]
      exact hmade _ (hR call s t h).2

/-- On surfaces that answer alike, applying steps makes the same calls. -/
theorem Agree.applySteps_eq (hR : Agree R) (failed : List String) (steps : List RenderStep) {s : σ} (hs : R s s) :
    ∃ made, ∀ t, R s t → (CoveragePages.applySteps failed steps t).1 = (CoveragePages.runCalls made t).1 := by
  induction steps generalizing failed s with
  | nil => exact ⟨[], fun t _ => rfl⟩
  | cons step rest ih =>
    obtain ⟨first, hfirst⟩ : ∃ made, ∀ t, R s t →
        (CoveragePages.applyStep failed step t).1 = (CoveragePages.runCalls made t).1 := by
      unfold CoveragePages.applyStep
      split
      · exact ⟨[], fun t _ => rfl⟩
      · exact hR.makeCalls_eq step.calls s
    -- the slots that failed after the step are the same on all related surfaces
    obtain ⟨made, hmade⟩ := ih (CoveragePages.applyStep failed step s).2.1 (hR.applyStep failed step hs).2
    refine ⟨first ++ made, fun t h => ?_⟩
    obtain ⟨houtcome, hstate⟩ := hR.applyStep failed step h
    rw [applySteps_cons, runCalls_append, ← houtcome, hmade _ hstate, hfirst t h]

end

/-! ## Repeated application -/

section

variable {σ : Type} [DisplaySurface σ]

/-- Applies a plan some times in a row, and collects the reports. -/
def RenderPlan.applyTimes (plan : RenderPlan) : Nat → σ → σ × List ApplyReport
  | 0, s => (s, [])
  | n + 1, s => ((plan.applyTimes n (plan.apply s).1).1, (plan.apply s).2 :: (plan.applyTimes n (plan.apply s).1).2)

variable [Registers σ] {s t : σ}

/-- The calls of a plan are the same on all surfaces of one shape. -/
theorem apply_calls (plan : RenderPlan) (s : σ) :
    ∃ made, ∀ t, SameShape s t → (plan.apply t).1 = (runCalls made t).1 ∧ (plan.apply t).2 = (plan.apply s).2 := by
  obtain ⟨made, hmade⟩ := agree_sameShape.applySteps_eq [] plan.steps (SameShape.refl s)
  refine ⟨made, fun t h => ⟨hmade t h, ?_⟩⟩
  rw [apply_eq, apply_eq, (agree_sameShape.applySteps [] plan.steps h).1]

/-- A plan that was applied before changes nothing when it is applied again. -/
theorem apply_apply (plan : RenderPlan) (s : σ) : SameHeld (plan.apply (plan.apply s).1).1 (plan.apply s).1 := by
  obtain ⟨made, hmade⟩ := apply_calls plan s
  have hshape : SameShape s (plan.apply s).1 := by
    rw [(hmade s (.refl s)).1]
    exact sameShape_runCalls made s
  rw [(hmade _ hshape).1, (hmade s (.refl s)).1]
  have hagain := sameShape_runCalls made (runCalls made s).1
  refine ⟨⟨hagain.lands.symm, hagain.written.symm⟩, ?_⟩
  funext place
  -- the last call that writes the place is the same both times
  rw [held_runCalls, held_runCalls, ← (sameShape_runCalls made s).writes, ← Option.or_assoc, Option.or_self]

theorem applyTimes_reports (plan : RenderPlan) (n : Nat) {s t : σ} (h : SameShape s t) :
    (plan.applyTimes n t).2 = List.replicate n (plan.apply s).2 := by
  obtain ⟨made, hmade⟩ := apply_calls plan s
  induction n generalizing t with
  | zero => rfl
  | succ n ih =>
    obtain ⟨hstate, hreport⟩ := hmade t h
    have hnext : SameShape s (plan.apply t).1 := by
      rw [hstate]
      exact h.trans (sameShape_runCalls made t)
    rw [RenderPlan.applyTimes, ih hnext, hreport, List.replicate_succ]

/-- Places hold the same after many applications as after one. -/
theorem applyTimes_held (plan : RenderPlan) (n : Nat) (s : σ) :
    held (plan.applyTimes (n + 1) s).1 = held (plan.apply s).1 := by
  have hall : ∀ t, SameHeld t (plan.apply s).1 → SameHeld (plan.applyTimes n t).1 (plan.apply s).1 := by
    induction n with
    | zero => exact fun t h => h
    | succ n ih =>
      intro t h
      have hagain : SameHeld (plan.apply t).1 (plan.apply (plan.apply s).1).1 :=
        (agree_sameHeld.applySteps [] plan.steps h).2
      exact ih _ (hagain.trans (apply_apply plan s))
  exact (hall _ ⟨.refl _, rfl⟩).held

end

/-! ## The page and the recorder -/

theorem applyTimes_kind (plan : RenderPlan) (n : Nat) (page : HtmlPage) :
    (plan.applyTimes n page).1.kind = page.kind := by
  induction n generalizing page with
  | zero => rfl
  | succ n ih =>
    obtain ⟨made, hmade⟩ := apply_calls plan page
    rw [RenderPlan.applyTimes, ih, (hmade page (.refl page)).1, (runCalls_filled made page).kind]

/-- Every application records the same operations, those of the calls that land. -/
theorem applyTimes_ops {plan : RenderPlan} {made : List Call} {r t : Recorder}
    (hmade : ∀ t, SameShape r t → (plan.apply t).1 = (runCalls made t).1 ∧ (plan.apply t).2 = (plan.apply r).2)
    (n : Nat) (h : SameShape r t) : (plan.applyTimes n t).1.ops =
      t.ops ++ (List.replicate n ((made.filter r.lands).map Recorder.opOf)).flatten := by
  induction n generalizing t with
  | zero => exact (List.append_nil _).symm
  | succ n ih =>
    have hstate := (hmade t h).1
    have hnext : SameShape r (plan.apply t).1 := by
      rw [hstate]
      exact h.trans (sameShape_runCalls made t)
    have hlands : r.lands = t.lands := h.lands
    rw [RenderPlan.applyTimes, ih hnext, hstate, Recorder.ops_runCalls, ← hlands, List.replicate_succ,
      List.flatten_cons,
      List.append_assoc]

/-- Applying a plan again changes nothing. On any page, applied once and then some times more, it gives
the same report every time, and the document is the one after the first application. On any recorder
the reports are the same as well, texts, classes, rows and sort are those after the first application,
and the same operations are recorded every time. -/
theorem apply_again (plan : RenderPlan) :
    (∀ (page : HtmlPage) (n : Nat),
      (plan.applyTimes (n + 1) page).2 = List.replicate (n + 1) (plan.apply page).2 ∧
        (plan.applyTimes (n + 1) page).1.document = (plan.apply page).1.document) ∧
    ∀ r : Recorder,
      (∀ n, (plan.applyTimes (n + 1) r).2 = List.replicate (n + 1) (plan.apply r).2 ∧
        (∀ id, (plan.applyTimes (n + 1) r).1.texts.get? id = (plan.apply r).1.texts.get? id) ∧
        (∀ id, (plan.applyTimes (n + 1) r).1.classes.get? id = (plan.apply r).1.classes.get? id) ∧
        (∀ slot, (plan.applyTimes (n + 1) r).1.rows.get? slot = (plan.apply r).1.rows.get? slot) ∧
        (plan.applyTimes (n + 1) r).1.sort = (plan.apply r).1.sort) ∧
      ∃ ops, ∀ n, (plan.applyTimes n r).1.ops = r.ops ++ (List.replicate n ops).flatten := by
  constructor
  · intro page n
    refine ⟨applyTimes_reports plan (n + 1) (.refl page), HtmlPage.document_congr ?_ (applyTimes_held plan n page)⟩
    rw [applyTimes_kind, ← applyTimes_kind plan 1 page]
    rfl
  · intro r
    refine ⟨fun n => ⟨applyTimes_reports plan (n + 1) (.refl r), Recorder.eq_of_held (applyTimes_held plan n r)⟩, ?_⟩
    obtain ⟨made, hmade⟩ := apply_calls plan r
    exact ⟨_, fun n => applyTimes_ops hmade n (.refl r)⟩

end CoveragePages
