/-
A dry run predicts the real page. The recorder of a page and the page itself start with the same
elements and slots, and every call keeps the two in correspondence and gets the same answer from
both. So a plan gives the same report on both, and the report that is displayed for a plan is the
one that rendering its page would give.
-/
import CoveragePages.CommandLine.Run
import CoveragePages.Proofs.Surface.Filling

namespace CoveragePages

open Dict (get?_insert isSome_insert bind_insert bind_insert_same)

/-! ## Correspondence -/

/-- A recorder and a page with the same elements and slots, on which the same was done. -/
structure Corresponds (r : Recorder) (page : HtmlPage) : Prop where
  ids : ∀ id, id ∈ r.ids ↔ (page.elements.get? id).isSome
  slots : ∀ slot, slot ∈ r.slots ↔ (page.slots.get? slot).isSome
  text : ∀ id, (page.elements.get? id).bind (·.text) = r.texts.get? id
  cls : ∀ id, (page.elements.get? id).bind (·.cls) = r.classes.get? id
  rows : ∀ slot, ((page.slots.get? slot).bind (·.rows)).isSome = (r.rows.get? slot).isSome
  sort : page.sort = r.sort

section

variable {r : Recorder} {page : HtmlPage}

/-- A call on an element succeeds on both or fails on both. -/
theorem Corresponds.onElement (h : Corresponds r page) (id : String) (update : Recorder → Recorder)
    (fill : HtmlPage.Element → HtmlPage.Element)
    (hupdate : ∀ element, page.elements.get? id = some element →
      Corresponds (update r) { page with elements := page.elements.insert id (fill element) }) :
    (Recorder.onElement id update r).2 = (HtmlPage.onElement id fill page).2 ∧
      Corresponds (Recorder.onElement id update r).1 (HtmlPage.onElement id fill page).1 := by
  have hid := h.ids id
  unfold Recorder.onElement HtmlPage.onElement
  cases he : page.elements.get? id with
  | none =>
    have hmem : id ∉ r.ids := fun hmem => by rw [hid, he] at hmem; cases hmem
    rw [if_neg hmem]
    exact ⟨rfl, h⟩
  | some element =>
    have hmem : id ∈ r.ids := by rw [hid, he]; rfl
    rw [if_pos hmem]
    exact ⟨rfl, hupdate element he⟩

/-- One call gets the same answer from both and keeps them in correspondence. -/
theorem corresponds_step : Agree Corresponds := by
  intro call r page h
  cases call with
  | setText target text =>
    have hboth := h.onElement target
      (fun r => { r with texts := r.texts.insert target text, ops := r.ops ++ [.text target text] })
      (fun e => { e with text := some text }) fun element he => by
        have hsome : (page.elements.get? target).isSome := by rw [he]; rfl
        refine ⟨fun id => ?_, h.slots, fun id => ?_, fun id => ?_, h.rows, h.sort⟩
        · rw [isSome_insert hsome]
          exact h.ids id
        · rw [bind_insert, get?_insert, h.text]
        · exact (bind_insert_same he { element with text := some text } (f := (·.cls)) rfl id).trans (h.cls id)
    exact ⟨congrArg (Except.map fun _ => none) hboth.1, hboth.2⟩
  | setClass target cls =>
    have hboth := h.onElement target
      (fun r => { r with classes := r.classes.insert target cls, ops := r.ops ++ [.class_ target cls] })
      (fun e => { e with cls := some cls }) fun element he => by
        have hsome : (page.elements.get? target).isSome := by rw [he]; rfl
        refine ⟨fun id => ?_, h.slots, fun id => ?_, fun id => ?_, h.rows, h.sort⟩
        · rw [isSome_insert hsome]
          exact h.ids id
        · exact (bind_insert_same he { element with cls := some cls } (f := (·.text)) rfl id).trans (h.text id)
        · rw [bind_insert, get?_insert, h.cls]
    exact ⟨congrArg (Except.map fun _ => none) hboth.1, hboth.2⟩
  | bindTemplate slot records =>
    have hslot := h.slots slot
    simp only [Call.run, DisplaySurface.bindTemplate]
    cases hs : page.slots.get? slot with
    | none =>
      have hmem : slot ∉ r.slots := fun hmem => by rw [hslot, hs] at hmem; cases hmem
      rw [if_neg hmem]
      exact ⟨rfl, h⟩
    | some s =>
      have hmem : slot ∈ r.slots := by rw [hslot, hs]; rfl
      have hsome : (page.slots.get? slot).isSome := by rw [hs]; rfl
      rw [if_pos hmem]
      -- the recorder counts the rows that the page renders
      refine ⟨rfl, h.ids, fun other => ?_, h.text, h.cls, fun other => ?_, h.sort⟩
      · rw [isSome_insert hsome]
        exact h.slots other
      · rw [bind_insert, get?_insert]
        split
        · rfl
        · exact h.rows other
  | activateSort table intent =>
    have hid := h.ids table
    simp only [Call.run, DisplaySurface.activateSort, Recorder.onElement]
    cases he : page.elements.get? table with
    | none =>
      have hmem : table ∉ r.ids := fun hmem => by rw [hid, he] at hmem; cases hmem
      rw [if_neg hmem]
      exact ⟨rfl, h⟩
    | some element =>
      have hmem : table ∈ r.ids := by rw [hid, he]; rfl
      rw [if_pos hmem]
      exact ⟨rfl, h.ids, h.slots, h.text, h.cls, h.rows, rfl⟩

end

/-! ## Untouched surfaces -/

/-- The untouched page of a kind can be set up, and corresponds to the untouched recorder. -/
theorem corresponds_ofKind (kind : PageKind) :
    ∃ page, HtmlPage.ofKind kind = .ok page ∧ page.kind = kind ∧ Corresponds (Recorder.ofPage kind) page := by
  obtain ⟨page, hpage, hkind, helements, hslots, hsort⟩ := exists_ofKind kind
  refine ⟨page, hpage, hkind, fun id => ?_, fun slot => ?_, fun id => ?_, fun id => ?_, fun slot => ?_, hsort⟩
  · by_cases h : id ∈ kind.ids <;> simp [helements, h, Recorder.ofPage]
  · by_cases h : slot ∈ kind.slots <;> simp [hslots, h, Recorder.ofPage]
  · rw [helements]
    split <;> rfl
  · rw [helements]
    split <;> rfl
  · rw [hslots]
    split <;> rfl

/-! ## The rows of a slot -/

/-- The records that a list of calls binds to a slot last. -/
def lastBound (slot : String) : List Call → Option (List Record)
  | [] => none
  | .bindTemplate s records :: rest => (lastBound slot rest).or (if s = slot then some records else none)
  | .setText _ _ :: rest | .setClass _ _ :: rest | .activateSort _ _ :: rest => lastBound slot rest

theorem lastBound_cons (slot : String) (call : Call) (rest : List Call) :
    lastBound slot (call :: rest) = (lastBound slot rest).or (lastBound slot [call]) := by
  cases call with
  | bindTemplate s records => rfl
  | setText | setClass | activateSort => exact (Option.or_none).symm

theorem onElement_rows (id : String) {update : Recorder → Recorder} {r : Recorder}
    (h : (update r).slots = r.slots ∧ (update r).rows = r.rows) :
    (Recorder.onElement id update r).1.slots = r.slots ∧ (Recorder.onElement id update r).1.rows = r.rows := by
  unfold Recorder.onElement
  split
  · exact h
  · exact ⟨rfl, rfl⟩

/-- What one call does to the row counts of a recorder; it declares no slot. -/
theorem run_rows (call : Call) (r : Recorder) (slot : String) :
    (call.run r).1.slots = r.slots ∧ (call.run r).1.rows.get? slot =
      if slot ∈ r.slots then ((lastBound slot [call]).map List.length).or (r.rows.get? slot) else r.rows.get? slot := by
  have helement : ∀ r' : Recorder, r'.slots = r.slots ∧ r'.rows = r.rows → r'.slots = r.slots ∧ r'.rows.get? slot =
      if slot ∈ r.slots then ((none : Option (List Record)).map List.length).or (r.rows.get? slot)
      else r.rows.get? slot := by
    rintro r' ⟨hslots, hrows⟩
    refine ⟨hslots, ?_⟩
    rw [hrows, Option.map_none, Option.none_or, ite_self]
  cases call with
  | setText | setClass | activateSort => exact helement _ (onElement_rows _ ⟨rfl, rfl⟩)
  | bindTemplate s records =>
    simp only [Call.run, DisplaySurface.bindTemplate, lastBound]
    by_cases hmem : s ∈ r.slots
    · rw [if_pos hmem]
      refine ⟨rfl, ?_⟩
      rw [get?_insert]
      by_cases hslot : s = slot
      · rw [if_pos hslot.symm, if_pos (hslot ▸ hmem), if_pos hslot]
        rfl
      · rw [if_neg fun h => hslot h.symm, if_neg hslot, Option.or_none, Option.map_none, Option.none_or, ite_self]
    · rw [if_neg hmem]
      refine ⟨rfl, ?_⟩
      by_cases hslot : s = slot
      · rw [if_neg (hslot ▸ hmem)]
      · rw [if_neg hslot, Option.or_none, Option.map_none, Option.none_or, ite_self]

/-- After any calls, a recorder has for each declared slot the number of records that were bound to it
last, and nothing new for other slots. -/
theorem runCalls_rows (calls : List Call) (r : Recorder) (slot : String) :
    (runCalls calls r).1.rows.get? slot =
      if slot ∈ r.slots then ((lastBound slot calls).map List.length).or (r.rows.get? slot) else r.rows.get? slot := by
  induction calls generalizing r with
  | nil => rw [runCalls, lastBound, Option.map_none, Option.none_or, ite_self]
  | cons call rest ih =>
    obtain ⟨hslots, hrows⟩ := run_rows call r slot
    rw [runCalls, ih, hslots, hrows, lastBound_cons slot call rest]
    by_cases hmem : slot ∈ r.slots
    · simp only [if_pos hmem, Option.map_or, Option.or_assoc]
    · simp only [if_neg hmem]

/-- A dry run predicts the page of any kind. Every sequence of calls gets the same answers from the
recorder and from the page, and leaves them in correspondence, with the row counts of what was bound
last. So every plan gives equal reports on both, and the report that is displayed for a plan is the
one that comes with its document. -/
theorem dry_run_predicts (kind : PageKind) :
    ∃ page, HtmlPage.ofKind kind = .ok page ∧
      (∀ calls : List Call,
        (runCalls calls (Recorder.ofPage kind)).2 = (runCalls calls page).2 ∧
        Corresponds (runCalls calls (Recorder.ofPage kind)).1 (runCalls calls page).1 ∧
        ∀ slot, (runCalls calls (Recorder.ofPage kind)).1.rows.get? slot =
          if slot ∈ kind.slots then (lastBound slot calls).map List.length else none) ∧
      (∀ plan : RenderPlan, (plan.apply (Recorder.ofPage kind)).2 = (plan.apply page).2) ∧
      ∀ plan : RenderPlan, plan.page = kind → ∃ document report, plan.document = .ok (document, report) ∧
        plan.describe = (Json.object [("plan", plan.toJson), ("report", report.toJson)]).sortKeys.pretty ++ "\n" := by
  obtain ⟨page, hpage, -, hcorresponds⟩ := corresponds_ofKind kind
  have hreports : ∀ plan : RenderPlan, (plan.apply (Recorder.ofPage kind)).2 = (plan.apply page).2 := by
    intro plan
    rw [apply_eq, apply_eq, (corresponds_step.applySteps [] plan.steps hcorresponds).1]
  refine ⟨page, hpage, fun calls => ?_, hreports, ?_⟩
  · obtain ⟨hresults, hfinal⟩ := corresponds_step.runCalls calls hcorresponds
    refine ⟨hresults, hfinal, fun slot => ?_⟩
    rw [runCalls_rows]
    show (if slot ∈ kind.slots then ((lastBound slot calls).map List.length).or none else none) = _
    rw [Option.or_none]
  · -- the document of a plan is rendered on the page of its kind
    rintro plan rfl
    refine ⟨_, (plan.apply page).2, by rw [RenderPlan.document, hpage]; rfl, ?_⟩
    rw [RenderPlan.describe, RenderPlan.dryRun, hreports]

end CoveragePages
