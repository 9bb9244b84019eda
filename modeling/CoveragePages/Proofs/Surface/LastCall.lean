/-
The last accepted call counts. A page shows, in each place, what the last call that was accepted there
wrote; calls that were refused or overwritten might as well not have been made, and the order of those
that are left does not matter.

Of calls in different places at most one writes any given place, so an order can be changed call by
call; `lastOf` is what each change is checked against.
-/
import CoveragePages.Proofs.Surface.Registers

namespace CoveragePages

open Registers

/-! ## Accepted calls, and the last of them -/

section

variable {σ : Type} [DisplaySurface σ]

/-- The calls of a run that are accepted, in order. -/
def acceptedCalls : List Call → σ → List Call
  | [], _ => []
  | call :: rest, s =>
    match (call.run s).2 with
    | .ok _ => call :: acceptedCalls rest (call.run s).1
    | .error _ => acceptedCalls rest (call.run s).1

/-- The calls that no later call overwrites. -/
def lastCalls : List Call → List Call
  | [] => []
  | call :: rest => if ∃ later ∈ rest, later.place = call.place then lastCalls rest else call :: lastCalls rest

theorem acceptedCalls_eq [Registers σ] (calls : List Call) (s : σ) :
    acceptedCalls calls s = calls.filter (lands s) := by
  induction calls generalizing s with
  | nil => rfl
  | cons call rest ih =>
    rw [acceptedCalls, ih, run_answer, ← (sameShape_run call s).lands]
    cases h : lands s call with
    | true => rw [if_pos rfl, List.filter_cons_of_pos h]
    | false => rw [if_neg Bool.false_ne_true, List.filter_cons_of_neg (by rw [h]; exact Bool.false_ne_true)]

end

theorem mem_of_mem_lastCalls {calls : List Call} {call : Call} (h : call ∈ lastCalls calls) : call ∈ calls := by
  induction calls with
  | nil => cases h
  | cons first rest ih =>
    rw [lastCalls] at h
    split at h
    · exact List.mem_cons_of_mem _ (ih h)
    · rcases List.mem_cons.1 h with rfl | h
      · exact List.mem_cons_self
      · exact List.mem_cons_of_mem _ (ih h)

/-- The last calls are each in a place of its own. -/
theorem lastCalls_apart (calls : List Call) : (lastCalls calls).Pairwise fun a b => a.place ≠ b.place := by
  induction calls with
  | nil => exact .nil
  | cons call rest ih =>
    rw [lastCalls]
    split
    · exact ih
    · rename_i hlast
      refine List.pairwise_cons.2 ⟨fun later hlater heq => hlast ⟨later, mem_of_mem_lastCalls hlater, heq.symm⟩, ih⟩

/-! ## What the last call writes -/

section

variable {α : Type} {aspect : Call → Option α} {place : Place}

/-- A list with a call that sets the aspect has a last one that does. -/
theorem isSome_lastOf {calls : List Call} {call : Call} (hmem : call ∈ calls) (h : (aspect call).isSome) :
    (lastOf aspect calls).isSome := by
  induction calls with
  | nil => cases hmem
  | cons first rest ih =>
    rw [lastOf, Option.isSome_or, Bool.or_eq_true]
    rcases List.mem_cons.1 hmem with rfl | hmem
    · exact .inr h
    · exact .inl (ih hmem)

/-- Overwritten calls make no difference to what is set last. -/
theorem lastOf_lastCalls {calls : List Call} (h : ∀ call ∈ calls, (aspect call).isSome ↔ call.place = place) :
    lastOf aspect (lastCalls calls) = lastOf aspect calls := by
  induction calls with
  | nil => rfl
  | cons call rest ih =>
    obtain ⟨hcall, hrest⟩ := List.forall_mem_cons.1 h
    rw [lastCalls]
    split
    · rename_i hlater
      obtain ⟨later, hmem, hplace⟩ := hlater
      rw [ih hrest, lastOf]
      cases haspect : aspect call with
      | none => exact Option.or_none.symm
      | some a =>
        -- the later call in the same place sets the aspect as well
        have hlanded : (aspect later).isSome := (hrest later hmem).2 (hplace.trans (hcall.1 (by rw [haspect]; rfl)))
        exact (Option.or_of_isSome (isSome_lastOf hmem hlanded)).symm
    · rw [lastOf, lastOf, ih hrest]

/-- Of calls in different places at most one sets the aspect. -/
theorem or_comm_of_apart {a b : Call} (ha : (aspect a).isSome → a.place = place)
    (hb : (aspect b).isSome → b.place = place)
    (hne : a.place ≠ b.place) : (aspect a).or (aspect b) = (aspect b).or (aspect a) := by
  cases hsetA : aspect a with
  | none => rw [Option.none_or, Option.or_none]
  | some x =>
    cases hsetB : aspect b with
    | none => rfl
    | some y => exact absurd ((ha (by rw [hsetA]; rfl)).trans (hb (by rw [hsetB]; rfl)).symm) hne

/-- The order of calls in different places makes no difference to what is set last. -/
theorem lastOf_perm {a b : List Call} (hperm : a.Perm b) (h : ∀ call ∈ a, (aspect call).isSome → call.place = place)
    (hapart : a.Pairwise fun x y => x.place ≠ y.place) : lastOf aspect a = lastOf aspect b := by
  induction hperm with
  | nil => rfl
  | cons call _ ih =>
    rw [lastOf, lastOf, ih (List.forall_mem_cons.1 h).2 (List.pairwise_cons.1 hapart).2]
  | swap x y rest =>
    obtain ⟨hy, hx, -⟩ : _ ∧ _ ∧ _ := by simpa using h
    have hne : y.place ≠ x.place := (List.pairwise_cons.1 hapart).1 x List.mem_cons_self
    simp only [lastOf, Option.or_assoc, or_comm_of_apart hx hy hne.symm]
  | trans hab _ ihab ihbc =>
    have hsymm : ∀ {x y : Call}, x.place ≠ y.place → y.place ≠ x.place := Ne.symm
    rw [ihab h hapart]
    exact ihbc (fun call hcall => h call (hab.mem_iff.2 hcall)) ((hab.pairwise_iff hsymm).1 hapart)

/-- Two neighbouring calls in different places may change their order. -/
theorem lastOf_swap {a b : Call} (h : ∀ call, (aspect call).isSome → call.place = place) (hne : a.place ≠ b.place)
    (before after : List Call) :
    lastOf aspect (before ++ a :: b :: after) = lastOf aspect (before ++ b :: a :: after) := by
  simp only [lastOf_append, lastOf, Option.or_assoc]
  congr 1
  rw [← Option.or_assoc, ← Option.or_assoc, or_comm_of_apart (h b) (h a) hne.symm]

/-- Calls that do not set the aspect make no difference to what is set last. -/
theorem lastOf_filter {kept : Call → Bool} {calls : List Call}
    (h : ∀ call ∈ calls, kept call = false → aspect call = none) :
    lastOf aspect (calls.filter kept) = lastOf aspect calls := by
  induction calls with
  | nil => rfl
  | cons call rest ih =>
    obtain ⟨hcall, hrest⟩ := List.forall_mem_cons.1 h
    cases hkept : kept call with
    | true => rw [List.filter_cons_of_pos hkept, lastOf, lastOf, ih hrest]
    | false =>
      rw [List.filter_cons_of_neg (by rw [hkept]; exact Bool.false_ne_true), lastOf, ih hrest, hcall hkept,
        Option.or_none]

end

/-! ## Documents -/

section

variable {σ : Type} [DisplaySurface σ] [Registers σ] {s : σ} {place : Place}

theorem place_of_writes {call : Call} (h : (writes s place call).isSome) : call.place = place := by
  unfold writes at h
  split at h
  · rename_i hand
    exact hand.2
  · cases h

theorem writes_iff {call : Call} (h : lands s call = true) : (writes s place call).isSome ↔ call.place = place := by
  refine ⟨place_of_writes, fun hplace => ?_⟩
  rw [writes, if_pos ⟨h, hplace⟩]
  rfl

/-- Every place holds the same after the last accepted calls, in any order, as after all calls. -/
theorem held_lastCalls {calls order : List Call} (h : order.Perm (lastCalls (acceptedCalls calls s)))
    (place : Place) :
    held (runCalls order s).1 place = held (runCalls calls s).1 place := by
  have hlast : lastOf (writes s place) order = lastOf (writes s place) calls := by
    rw [acceptedCalls_eq] at h
    calc lastOf (writes s place) order
        = lastOf (writes s place) (lastCalls (calls.filter (lands s))) := by
          refine (lastOf_perm h.symm (fun _ _ => place_of_writes) (lastCalls_apart _)).symm
      _ = lastOf (writes s place) (calls.filter (lands s)) :=
          lastOf_lastCalls fun call hcall => writes_iff (List.of_mem_filter hcall)
      _ = lastOf (writes s place) calls := by
          refine lastOf_filter fun call _ hmissing => ?_
          rw [writes, if_neg fun hand => Bool.false_ne_true (hmissing.symm.trans hand.1)]
  rw [held_runCalls, held_runCalls, hlast]

end

/-- Pages of one origin whose places hold the same have the same document. -/
theorem document_runCalls {a b : List Call} {page : HtmlPage}
    (h : ∀ place, held (runCalls a page).1 place = held (runCalls b page).1 place) :
    (runCalls a page).1.document = (runCalls b page).1.document :=
  HtmlPage.document_congr ((runCalls_filled a page).kind.trans (runCalls_filled b page).kind.symm) (funext h)

/-- Whether a page of a kind declares the target of a call. -/
def Call.isDeclared (kind : PageKind) : Call → Bool
  | setText target _ | setClass target _ => target ∈ kind.ids
  | bindTemplate slot _ => slot ∈ kind.slots
  | activateSort table _ => table ∈ kind.ids

/-- The last accepted call counts, on a page of any kind. After any calls the document is that of the
last accepted calls alone, one for each place, in any order. A refused call changes nothing,
neighbouring calls in different places may change their order, and which calls are accepted depends
only on the elements and slots of the kind. -/
theorem last_accepted_calls_count (kind : PageKind) : ∃ page, HtmlPage.ofKind kind = .ok page ∧
    (∀ calls order : List Call, order.Perm (lastCalls (acceptedCalls calls page)) →
      (runCalls order page).1.document = (runCalls calls page).1.document) ∧
    (∀ (before : List Call) (call : Call) (e : SurfaceError), (call.run (runCalls before page).1).2 = .error e →
      (call.run (runCalls before page).1).1 = (runCalls before page).1) ∧
    (∀ (before after : List Call) (a b : Call), a.place ≠ b.place →
      (runCalls (before ++ a :: b :: after) page).1.document =
        (runCalls (before ++ b :: a :: after) page).1.document) ∧
    ∀ (before : List Call) (call : Call), (call.run (runCalls before page).1).2 =
      if call.isDeclared kind then .ok call.rows? else .error call.refusal := by
  obtain ⟨page, hpage, -, helements, hslots, -⟩ := exists_ofKind kind
  have hdeclared : ∀ call, lands page call = call.isDeclared kind := by
    have hsome : ∀ {α : Type} {a : α} (p : Prop) [Decidable p], (if p then some a else none).isSome = decide p := by
      intro α a p _
      split <;> simp [*]
    intro call
    cases call with
    | setText target | setClass target | activateSort target =>
      show (page.elements.get? target).isSome = _
      rw [helements, hsome]
      rfl
    | bindTemplate slot =>
      show (page.slots.get? slot).isSome = _
      rw [hslots, hsome]
      rfl
  refine ⟨page, hpage, fun calls order h => document_runCalls (held_lastCalls h), fun before call e herror => ?_,
    fun before after a b hne => document_runCalls fun place => ?_, fun before call => ?_⟩
  · cases h : lands (runCalls before page).1 call with
    | true =>
      rw [run_answer, if_pos h] at herror
      cases herror
    | false => rw [run_missing h]
  · rw [held_runCalls, held_runCalls, lastOf_swap (fun _ => place_of_writes) hne]
  · rw [run_answer, ← (sameShape_runCalls before page).lands, hdeclared]

/-- A title that is set twice, with a refused call between: the second title is all that counts. -/
theorem last_accepted_calls_count_title : ∃ page, HtmlPage.ofKind .source = .ok page ∧
    (runCalls [.bindTemplate "source-code" [], .setText Target.windowTitle "new"] page).1.document =
      (runCalls [.setText Target.windowTitle "old", .setClass Target.indexTable "wide",
        .setText Target.windowTitle "new", .bindTemplate "source-code" []] page).1.document := by
  obtain ⟨page, hpage, hlast, -, -, hanswers⟩ := last_accepted_calls_count .source
  have hold := hanswers [] (.setText Target.windowTitle "old")
  have hwide := hanswers [.setText Target.windowTitle "old"] (.setClass Target.indexTable "wide")
  have hnew := hanswers [.setText Target.windowTitle "old", .setClass Target.indexTable "wide"]
    (.setText Target.windowTitle "new")
  have hrows := hanswers [.setText Target.windowTitle "old", .setClass Target.indexTable "wide",
    .setText Target.windowTitle "new"] (.bindTemplate "source-code" [])
  have haccepted : acceptedCalls [.setText Target.windowTitle "old", .setClass Target.indexTable "wide",
      .setText Target.windowTitle "new", .bindTemplate "source-code" []] page =
      [.setText Target.windowTitle "old", .setText Target.windowTitle "new", .bindTemplate "source-code" []] := by
    simp only [runCalls] at hold hwide hnew hrows
    simp only [acceptedCalls, hold, hwide, hnew, hrows]
    rfl
  refine ⟨page, hpage, hlast _ _ ?_⟩
  rw [haccepted]
  exact .swap _ _ _

end CoveragePages
