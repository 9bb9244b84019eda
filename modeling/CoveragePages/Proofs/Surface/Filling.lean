/-
What calls leave on a page. Of the calls on an element or slot that is there, the last one counts,
for each aspect on its own; what is there does not depend on calls, and a call succeeds exactly if
its target is there.
-/
import CoveragePages.Markup.Page
import CoveragePages.Proofs.Dict
import CoveragePages.Proofs.Markup.Row
import CoveragePages.Proofs.Plan.Calls

namespace CoveragePages

open Dict (get?_insert get?_ofEntries_map)

/-! ## The last call -/

/-- What the last of some calls sets of one aspect, if any sets it. -/
def lastOf {α : Type} (aspect : Call → Option α) : List Call → Option α
  | [] => none
  | call :: rest => (lastOf aspect rest).or (aspect call)

theorem lastOf_append {α : Type} (aspect : Call → Option α) (a b : List Call) :
    lastOf aspect (a ++ b) = (lastOf aspect b).or (lastOf aspect a) := by
  induction a with
  | nil => simp [lastOf]
  | cons call rest ih => simp [lastOf, ih, Option.or_assoc]

theorem lastOf_eq_none {α : Type} {aspect : Call → Option α} {calls : List Call}
    (h : ∀ call ∈ calls, aspect call = none) :
    lastOf aspect calls = none := by
  induction calls with
  | nil => rfl
  | cons call rest ih =>
    obtain ⟨hcall, hrest⟩ := List.forall_mem_cons.1 h
    simp [lastOf, hcall, ih hrest]

namespace Call

/-- The text that a call sets of an element. -/
def textFor? (id : String) : Call → Option String
  | setText target text => if target = id then some text else none
  | _ => none

/-- The class that a call sets of an element. -/
def classFor? (id : String) : Call → Option String
  | setClass target cls => if target = id then some cls else none
  | _ => none

/-- The records that a call binds to a slot. -/
def recordsFor? (slot : String) : Call → Option (List Record)
  | bindTemplate s records => if s = slot then some records else none
  | _ => none

/-- The sort that a call activates, if its table is there. -/
def sortOn? (page : HtmlPage) : Call → Option (String × SortIntent)
  | activateSort table intent => if (page.elements.get? table).isSome then some (table, intent) else none
  | _ => none

/-- Whether the target of a call is there. -/
def Lands (page : HtmlPage) : Call → Prop
  | setText target _ | setClass target _ => (page.elements.get? target).isSome
  | bindTemplate slot _ => (page.slots.get? slot).isSome
  | activateSort table _ => (page.elements.get? table).isSome

/-- The rows that a call answers with. -/
def rows? : Call → Option Nat
  | bindTemplate _ records => some records.length
  | _ => none

end Call

/-! ## Pages after calls -/

/-- A page after some calls. -/
structure FilledBy (page : HtmlPage) (calls : List Call) (final : HtmlPage) : Prop where
  kind : final.kind = page.kind
  elements : ∀ id, final.elements.get? id = (page.elements.get? id).map fun e =>
    ⟨(lastOf (Call.textFor? id) calls).or e.text, (lastOf (Call.classFor? id) calls).or e.cls⟩
  slots : ∀ slot, final.slots.get? slot = (page.slots.get? slot).map fun s =>
    ⟨s.template, ((lastOf (Call.recordsFor? slot) calls).map s.template.renderAll).or s.rows⟩
  sort : final.sort = (lastOf (Call.sortOn? page) calls).or page.sort

namespace FilledBy

variable {page middle final : HtmlPage} {call : Call} {calls : List Call}

theorem nil (page : HtmlPage) : FilledBy page [] page where
  kind := rfl
  elements id := by cases page.elements.get? id <;> rfl
  slots slot := by cases page.slots.get? slot <;> rfl
  sort := rfl

/-- The calls after the first find the same elements and slots as it does. -/
theorem cons (h : FilledBy page [call] middle) (hrest : FilledBy middle calls final) :
    FilledBy page (call :: calls) final where
  kind := hrest.kind.trans h.kind
  elements id := by
    rw [hrest.elements, h.elements]
    simp [lastOf, Option.or_assoc, Function.comp_def]
  slots slot := by
    rw [hrest.slots, h.slots]
    simp [lastOf, Option.or_assoc, Function.comp_def, Option.map_or]
  sort := by
    have hsame : Call.sortOn? middle = Call.sortOn? page := by
      funext c
      cases c with
      | activateSort table intent => simp [Call.sortOn?, h.elements]
      | setText | setClass | bindTemplate => rfl
    rw [hrest.sort, h.sort, hsame]
    simp [lastOf, Option.or_assoc]

end FilledBy

section

variable (page : HtmlPage) (call : Call)

variable {page} in
theorem element_kept {id : String} (h : call.textFor? id = none ∧ call.classFor? id = none) :
    page.elements.get? id = (page.elements.get? id).map fun e =>
      ⟨(lastOf (Call.textFor? id) [call]).or e.text, (lastOf (Call.classFor? id) [call]).or e.cls⟩ := by
  cases page.elements.get? id <;> simp [lastOf, h]

variable {page} in
theorem slot_kept {slot : String} (h : call.recordsFor? slot = none) :
    page.slots.get? slot = (page.slots.get? slot).map fun s =>
      ⟨s.template, ((lastOf (Call.recordsFor? slot) [call]).map s.template.renderAll).or s.rows⟩ := by
  cases page.slots.get? slot <;> simp [lastOf, h]

/-- Changing an element changes nothing else. -/
theorem onElement_filled (target : String) (fill : HtmlPage.Element → HtmlPage.Element)
    (hfill : ∀ e, fill e = ⟨(call.textFor? target).or e.text, (call.classFor? target).or e.cls⟩)
    (hother : ∀ id, id ≠ target → call.textFor? id = none ∧ call.classFor? id = none)
    (hrest : (∀ slot, call.recordsFor? slot = none) ∧ call.sortOn? page = none) :
    FilledBy page [call] (HtmlPage.onElement target fill page).1 ∧
      ((HtmlPage.onElement target fill page).2 = .ok () ↔ (page.elements.get? target).isSome) := by
  have hsort : page.sort = (lastOf (Call.sortOn? page) [call]).or page.sort := by simp [lastOf, hrest.2]
  unfold HtmlPage.onElement
  cases he : page.elements.get? target with
  | none =>
    refine ⟨⟨rfl, fun id => ?_, fun slot => slot_kept call (hrest.1 slot), hsort⟩, by simp⟩
    by_cases hid : id = target
    · simp [hid, he]
    · exact element_kept call (hother id hid)
  | some e =>
    refine ⟨⟨rfl, fun id => ?_, fun slot => slot_kept call (hrest.1 slot), hsort⟩, by simp⟩
    rw [get?_insert]
    by_cases hid : id = target
    · simp [hid, he, hfill, lastOf]
    · rw [if_neg hid]
      exact element_kept call (hother id hid)

end

theorem run_filled (call : Call) (page : HtmlPage) :
    FilledBy page [call] (call.run page).1 ∧ ((call.run page).2 = .ok call.rows? ↔ call.Lands page) := by
  have hmap : ∀ r : Except SurfaceError Unit, r.map (fun _ => (none : Option Nat)) = .ok none ↔ r = .ok () := by
    intro r
    cases r <;> simp [Except.map]
  cases call with
  | setText target text =>
    obtain ⟨hfilled, hok⟩ := onElement_filled page (.setText target text) target
      (fun e => { e with text := some text }) (by simp [Call.textFor?, Call.classFor?])
      (fun id hid => by simp [Call.textFor?, Call.classFor?, Ne.symm hid]) ⟨fun _ => rfl, rfl⟩
    exact ⟨hfilled, (hmap _).trans hok⟩
  | setClass target cls =>
    obtain ⟨hfilled, hok⟩ := onElement_filled page (.setClass target cls) target
      (fun e => { e with cls := some cls }) (by simp [Call.textFor?, Call.classFor?])
      (fun id hid => by simp [Call.textFor?, Call.classFor?, Ne.symm hid]) ⟨fun _ => rfl, rfl⟩
    exact ⟨hfilled, (hmap _).trans hok⟩
  | bindTemplate target records =>
    have hother : ∀ slot, slot ≠ target → (Call.bindTemplate target records).recordsFor? slot = none :=
      fun slot hslot => if_neg (Ne.symm hslot)
    simp only [Call.run, DisplaySurface.bindTemplate, Call.Lands, Call.rows?]
    cases hs : page.slots.get? target with
    | none =>
      refine ⟨⟨rfl, fun id => element_kept _ ⟨rfl, rfl⟩, fun slot => ?_, rfl⟩, by simp [Except.map]⟩
      by_cases hslot : slot = target
      · simp [hslot, hs]
      · exact slot_kept _ (hother slot hslot)
    | some s =>
      refine ⟨⟨rfl, fun id => element_kept _ ⟨rfl, rfl⟩, fun slot => ?_, rfl⟩, by simp [Except.map]⟩
      rw [get?_insert]
      by_cases hslot : slot = target
      · simp [hslot, hs, lastOf, Call.recordsFor?]
      · rw [if_neg hslot]
        exact slot_kept _ (hother slot hslot)
  | activateSort table intent =>
    have helements : ∀ id, page.elements.get? id = _ :=
      fun id => element_kept (.activateSort table intent) ⟨rfl, rfl⟩
    have hslots : ∀ slot, page.slots.get? slot = _ := fun slot => slot_kept (.activateSort table intent) rfl
    simp only [Call.run, DisplaySurface.activateSort, Call.Lands, Call.rows?]
    cases he : page.elements.get? table with
    | none => exact ⟨⟨rfl, helements, hslots, by simp [lastOf, Call.sortOn?, he]⟩, by simp [Except.map]⟩
    | some e => exact ⟨⟨rfl, helements, hslots, by simp [lastOf, Call.sortOn?, he]⟩, by simp [Except.map]⟩

theorem runCalls_filled (calls : List Call) (page : HtmlPage) : FilledBy page calls (runCalls calls page).1 := by
  induction calls generalizing page with
  | nil => exact .nil page
  | cons call rest ih => exact (run_filled call page).1.cons (ih _)

/-! ## Plans whose calls all land -/

theorem FilledBy.lands_iff {page final : HtmlPage} {calls : List Call} (h : FilledBy page calls final) (call : Call) :
    call.Lands final ↔ call.Lands page := by
  cases call <;> simp [Call.Lands, h.elements, h.slots]

theorem makeCalls_of_lands {calls : List Call} {page : HtmlPage} (h : ∀ call ∈ calls, call.Lands page) :
    makeCalls calls page = ((runCalls calls page).1, .ok (calls.findSome? Call.rows?)) := by
  induction calls generalizing page with
  | nil => rfl
  | cons call rest ih =>
    obtain ⟨hcall, hrest⟩ := List.forall_mem_cons.1 h
    obtain ⟨hfilled, hok⟩ := run_filled call page
    have hnext := ih fun c hc => (hfilled.lands_iff c).2 (hrest c hc)
    have hrun : call.run page = ((call.run page).1, .ok call.rows?) := by rw [← hok.2 hcall]
    rw [makeCalls, hrun]
    simp only [hnext, runCalls, List.findSome?_cons, Except.map]
    cases call.rows? <;> rfl

theorem runCalls_append {σ : Type} [DisplaySurface σ] (a b : List Call) (state : σ) :
    (runCalls (a ++ b) state).1 = (runCalls b (runCalls a state).1).1 := by
  induction a generalizing state with
  | nil => rfl
  | cons call rest ih => exact ih _

/-- Where every call lands, every step is applied. -/
theorem applySteps_of_lands {steps : List RenderStep} {page : HtmlPage}
    (h : ∀ step ∈ steps, ∀ call ∈ step.calls, call.Lands page) :
    applySteps [] steps page = ((runCalls (steps.flatMap RenderStep.calls) page).1,
      steps.map fun step => .ofResult step.label (.ok (step.calls.findSome? Call.rows?))) := by
  induction steps generalizing page with
  | nil => rfl
  | cons step rest ih =>
    obtain ⟨hstep, hrest⟩ := List.forall_mem_cons.1 h
    have hnext := ih fun s hs c hc => ((runCalls_filled step.calls page).lands_iff c).2 (hrest s hs c hc)
    rw [applySteps_cons, applyStep_run fun slot _ => List.not_mem_nil, makeCalls_of_lands hstep]
    simp only [failedAfter, hnext, List.flatMap_cons, runCalls_append, List.map_cons]

/-- The document of a plan whose calls all land, and the report that comes with it. -/
theorem document_of_lands (plan : RenderPlan) {page : HtmlPage} (hpage : HtmlPage.ofKind plan.page = .ok page)
    (h : ∀ step ∈ plan.steps, ∀ call ∈ step.calls, call.Lands page) :
    ∃ final, FilledBy page (plan.steps.flatMap RenderStep.calls) final ∧ plan.document = .ok (final.document,
      ⟨plan.steps.map fun step => .ofResult step.label (.ok (step.calls.findSome? Call.rows?))⟩) := by
  refine ⟨_, runCalls_filled _ page, ?_⟩
  have hdocument : plan.document = .ok ((plan.apply page).1.document, (plan.apply page).2) := by
    rw [RenderPlan.document, hpage]
    rfl
  rw [hdocument, apply_eq, applySteps_of_lands h]

/-! ## Untouched pages -/

/-- The template of every slot of a page. -/
def PageKind.template : PageKind → RowTemplate
  | index => RowTemplate.indexTemplate
  | source => RowTemplate.sourceTemplate

theorem withBuiltin_eq {kind : PageKind} {slot : String} (h : slot ∈ kind.slots) (page : HtmlPage) :
    page.withBuiltin slot = .ok { page with slots := page.slots.insert slot { template := kind.template } } := by
  have hparse : ∃ text, RowTemplate.builtin? slot = some text ∧ RowTemplate.parse text = .ok kind.template := by
    cases kind with
    | index =>
      simp only [PageKind.slots, List.mem_cons, List.not_mem_nil, or_false] at h
      rcases h with rfl | rfl <;> exact ⟨_, rfl, RowTemplate.parse_indexRow⟩
    | source =>
      rw [List.mem_singleton.1 h]
      exact ⟨_, rfl, RowTemplate.parse_sourceRow⟩
  obtain ⟨text, htext, hparse⟩ := hparse
  simp only [HtmlPage.withBuiltin, htext, HtmlPage.withTemplate, hparse]

theorem foldlM_withBuiltin {kind : PageKind} {slots : List String} (h : ∀ slot ∈ slots, slot ∈ kind.slots)
    (page : HtmlPage) :
    ∃ page', slots.foldlM HtmlPage.withBuiltin page = .ok page' ∧
      page'.kind = page.kind ∧ page'.elements = page.elements ∧ page'.sort = page.sort ∧
      ∀ slot, page'.slots.get? slot =
        if slot ∈ slots then some { template := kind.template } else page.slots.get? slot := by
  induction slots generalizing page with
  | nil => exact ⟨page, rfl, rfl, rfl, rfl, fun slot => by simp⟩
  | cons slot rest ih =>
    obtain ⟨hslot, hrest⟩ := List.forall_mem_cons.1 h
    obtain ⟨page', hfold, hkind, helements, hsort, hslots⟩ :=
      ih hrest { page with slots := page.slots.insert slot { template := kind.template } }
    refine ⟨page', by rw [List.foldlM_cons, withBuiltin_eq hslot]; exact hfold, hkind, helements, hsort,
      fun other => ?_⟩
    rw [hslots, get?_insert]
    by_cases heq : other = slot <;> simp [heq]

/-- The untouched page of a kind has the elements of the kind, with nothing set, and its slots, without rows. -/
theorem exists_ofKind (kind : PageKind) : ∃ page, HtmlPage.ofKind kind = .ok page ∧ page.kind = kind ∧
    (∀ id, page.elements.get? id = if id ∈ kind.ids then some {} else none) ∧
    (∀ slot, page.slots.get? slot = if slot ∈ kind.slots then some { template := kind.template } else none) ∧
    page.sort = none := by
  obtain ⟨page, hpage, hkind, helements, hsort, hslots⟩ := foldlM_withBuiltin (fun _ h => h)
    { kind, elements := .ofEntries (kind.ids.map fun id => (id, {})), slots := [], sort := none }
  exact ⟨page, hpage, hkind, fun id => by rw [helements, get?_ofEntries_map], hslots, hsort⟩

end CoveragePages
