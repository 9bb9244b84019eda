/-
Surfaces as registers. What a surface shows is held in places: the text and the class of each
element, the rows of each slot, and the sort. A call that lands writes one place and no other; a call
that does not land changes nothing. Which calls land, and what they write, is the same before and
after every call, so what a place holds after some calls is what the last of them that landed there
wrote. Both surfaces of the report, the page and the recorder, are of this kind.
-/
import CoveragePages.Proofs.Surface.Filling
import CoveragePages.Surface.Recorder

namespace CoveragePages

open Dict (get?_insert isSome_insert bind_insert bind_insert_same)

/-! ## Places -/

/-- What a call sets: one aspect of an element, the rows of a slot, or the sort. -/
inductive Place where
  | text (id : String)
  | cls (id : String)
  | rows (slot : String)
  | sort
  deriving DecidableEq

/-- What a place holds. -/
inductive Held where
  | text (s : String)
  | count (n : Nat)
  | sort (table : String) (intent : SortIntent)

namespace Call

/-- The place that a call sets. -/
def place : Call → Place
  | setText target _ => .text target
  | setClass target _ => .cls target
  | bindTemplate slot _ => .rows slot
  | activateSort _ _ => .sort

/-- Why a call fails if its target is not there. -/
def refusal : Call → SurfaceError
  | setText target _ | setClass target _ => .noElement target
  | bindTemplate slot _ => .noSlot slot
  | activateSort table _ => .noElement table

end Call

/-- A surface that holds what it shows in places. -/
class Registers (σ : Type) [DisplaySurface σ] where
  /-- What a place holds. -/
  held : σ → Place → Option Held
  /-- Whether the target of a call is there. -/
  lands : σ → Call → Bool
  /-- What a call writes if it lands. -/
  written : σ → Call → Held
  run_missing : ∀ {call : Call} {s : σ}, lands s call = false → call.run s = (s, .error call.refusal)
  run_landed : ∀ {call : Call} {s : σ}, lands s call = true → ∃ t, call.run s = (t, .ok call.rows?) ∧
    (∀ place, held t place = if call.place = place then some (written s call) else held s place) ∧
    lands t = lands s ∧ written t = written s

open Registers

section

variable {σ : Type} [DisplaySurface σ] [Registers σ]

/-! ## One call -/

/-- A call succeeds exactly if its target is there. -/
theorem run_answer (call : Call) (s : σ) :
    (call.run s).2 = if lands s call = true then .ok call.rows? else .error call.refusal := by
  cases h : lands s call with
  | true =>
    obtain ⟨t, hrun, -⟩ := run_landed h
    rw [if_pos rfl, hrun]
  | false => rw [if_neg Bool.false_ne_true, run_missing h]

/-- What a call leaves in a place, if it lands there. -/
def writes (s : σ) (place : Place) (call : Call) : Option Held :=
  if lands s call = true ∧ call.place = place then some (written s call) else none

theorem held_run (call : Call) (s : σ) (place : Place) :
    held (call.run s).1 place = (writes s place call).or (held s place) := by
  unfold writes
  cases h : lands s call with
  | true =>
    obtain ⟨t, hrun, hheld, -⟩ := run_landed h
    rw [hrun, hheld]
    by_cases hplace : call.place = place
    · rw [if_pos hplace, if_pos ⟨rfl, hplace⟩, Option.some_or]
    · rw [if_neg hplace, if_neg fun hand => hplace hand.2, Option.none_or]
  | false => rw [run_missing h, if_neg fun hand => Bool.false_ne_true hand.1, Option.none_or]

/-- Surfaces on which the same calls land and write the same. -/
structure SameShape (s t : σ) : Prop where
  lands : lands s = lands t
  written : written s = written t

theorem SameShape.refl (s : σ) : SameShape s s := ⟨rfl, rfl⟩

theorem SameShape.trans {s t u : σ} (h : SameShape s t) (h' : SameShape t u) : SameShape s u :=
  ⟨h.lands.trans h'.lands, h.written.trans h'.written⟩

theorem SameShape.writes {s t : σ} (h : SameShape s t) : writes s = writes t := by
  funext place call
  rw [CoveragePages.writes, CoveragePages.writes, h.lands, h.written]

/-- No call changes which calls land and what they write. -/
theorem sameShape_run (call : Call) (s : σ) : SameShape s (call.run s).1 := by
  cases h : lands s call with
  | true =>
    obtain ⟨t, hrun, -, hlands, hwritten⟩ := run_landed h
    rw [hrun]
    exact ⟨hlands.symm, hwritten.symm⟩
  | false => rw [run_missing h]; exact .refl s

/-! ## Some calls -/

theorem sameShape_runCalls (calls : List Call) (s : σ) : SameShape s (runCalls calls s).1 := by
  induction calls generalizing s with
  | nil => exact .refl s
  | cons call rest ih => exact (sameShape_run call s).trans (ih _)

/-- A place holds what the last call that landed there wrote, or what it held before. -/
theorem held_runCalls (calls : List Call) (s : σ) (place : Place) :
    held (runCalls calls s).1 place = (lastOf (writes s place) calls).or (held s place) := by
  induction calls generalizing s with
  | nil => rfl
  | cons call rest ih => rw [runCalls, ih, ← (sameShape_run call s).writes, held_run, lastOf, Option.or_assoc]

/-! ## Surfaces that hold the same -/

/-- Surfaces of the same shape whose places hold the same. -/
structure SameHeld (s t : σ) : Prop extends SameShape s t where
  held : held s = held t

theorem SameHeld.trans {s t u : σ} (h : SameHeld s t) (h' : SameHeld t u) : SameHeld s u :=
  ⟨h.toSameShape.trans h'.toSameShape, h.held.trans h'.held⟩

theorem agree_sameShape : Agree (SameShape (σ := σ)) := by
  intro call s t h
  refine ⟨by rw [run_answer, run_answer, h.lands], ?_⟩
  exact ⟨by rw [← (sameShape_run call s).lands, ← (sameShape_run call t).lands, h.lands],
    by rw [← (sameShape_run call s).written, ← (sameShape_run call t).written, h.written]⟩

theorem agree_sameHeld : Agree (SameHeld (σ := σ)) := by
  intro call s t h
  obtain ⟨hresult, hshape⟩ := agree_sameShape call s t h.toSameShape
  refine ⟨hresult, hshape, ?_⟩
  funext place
  rw [held_run, held_run, h.writes, h.held]

end

namespace Held

theorem text_injective : Function.Injective text := fun _ _ h => text.inj h

theorem count_injective : Function.Injective count := fun _ _ h => count.inj h

theorem sort_injective : Function.Injective fun x : String × SortIntent => sort x.1 x.2 :=
  fun _ _ h => Prod.ext (sort.inj h).1 (sort.inj h).2

end Held

/-! ## The page -/

namespace HtmlPage

/-- What a place of a page holds. -/
def held (page : HtmlPage) : Place → Option Held
  | .text id => ((page.elements.get? id).bind (·.text)).map .text
  | .cls id => ((page.elements.get? id).bind (·.cls)).map .text
  | .rows slot => ((page.slots.get? slot).bind (·.rows)).map .text
  | .sort => page.sort.map fun (table, intent) => .sort table intent

/-- Whether the target of a call is there. -/
def lands (page : HtmlPage) : Call → Bool
  | .setText target _ | .setClass target _ => (page.elements.get? target).isSome
  | .bindTemplate slot _ => (page.slots.get? slot).isSome
  | .activateSort table _ => (page.elements.get? table).isSome

/-- What a call writes: a slot has the rows that its template makes of the records. -/
def written (page : HtmlPage) : Call → Held
  | .setText _ text => .text text
  | .setClass _ cls => .text cls
  | .bindTemplate slot records =>
    .text (((page.slots.get? slot).map fun s => s.template.renderAll records).getD "")
  | .activateSort table intent => .sort table intent

section

variable {page : HtmlPage}

theorem run_setText {target : String} {element : Element} (h : page.elements.get? target = some element)
    (text : String) :
    (Call.setText target text).run page =
      ({ page with elements := page.elements.insert target { element with text := some text } }, .ok none) := by
  simp only [Call.run, DisplaySurface.setText, onElement, h]
  rfl

theorem run_setClass {target : String} {element : Element} (h : page.elements.get? target = some element)
    (cls : String) :
    (Call.setClass target cls).run page =
      ({ page with elements := page.elements.insert target { element with cls := some cls } }, .ok none) := by
  simp only [Call.run, DisplaySurface.setClass, onElement, h]
  rfl

theorem run_bindTemplate {slot : String} {s : Slot} (h : page.slots.get? slot = some s) (records : List Record) :
    (Call.bindTemplate slot records).run page =
      ({ page with slots := page.slots.insert slot { s with rows := some (s.template.renderAll records) } },
        .ok (some records.length)) := by
  simp only [Call.run, DisplaySurface.bindTemplate, h]
  rfl

theorem run_activateSort {table : String} (h : (page.elements.get? table).isSome) (intent : SortIntent) :
    (Call.activateSort table intent).run page = ({ page with sort := some (table, intent) }, .ok none) := by
  obtain ⟨element, helement⟩ := Option.isSome_iff_exists.1 h
  simp only [Call.run, DisplaySurface.activateSort, helement]
  rfl

theorem run_of_not_lands {call : Call} (h : page.lands call = false) :
    call.run page = (page, .error call.refusal) := by
  have hnone : ∀ {α : Type} {o : Option α}, o.isSome = false → o = none :=
    fun ho => Option.not_isSome_iff_eq_none.1 (by simp [ho])
  cases call with
  | setText target text | setClass target text =>
    simp only [Call.run, DisplaySurface.setText, DisplaySurface.setClass, onElement, hnone h]
    rfl
  | bindTemplate slot records =>
    simp only [Call.run, DisplaySurface.bindTemplate, hnone h]
    rfl
  | activateSort table intent =>
    simp only [Call.run, DisplaySurface.activateSort, hnone h]
    rfl

/-- A changed element declares no target and changes no template. -/
theorem same_element {id : String} (h : (page.elements.get? id).isSome) (element : Element) :
    ({ page with elements := page.elements.insert id element } : HtmlPage).lands = page.lands ∧
      ({ page with elements := page.elements.insert id element } : HtmlPage).written = page.written := by
  constructor
  · funext call
    cases call with
    | setText | setClass | activateSort => exact isSome_insert h element _
    | bindTemplate => rfl
  · funext call
    cases call <;> rfl

/-- Nor do the rows of a slot. -/
theorem same_slot {slot : String} {s : Slot} (h : page.slots.get? slot = some s) (rows : String) :
    ({ page with slots := page.slots.insert slot { s with rows := some rows } } : HtmlPage).lands = page.lands ∧
      ({ page with slots := page.slots.insert slot { s with rows := some rows } } : HtmlPage).written =
        page.written := by
  constructor
  · funext call
    cases call with
    | setText | setClass | activateSort => rfl
    | bindTemplate other records => exact isSome_insert (by rw [h]; rfl) _ other
  · funext call
    cases call with
    | setText | setClass | activateSort => rfl
    | bindTemplate other records =>
      simp only [written, get?_insert]
      split
      · rename_i heq
        rw [heq, h]
        rfl
      · rfl

end

instance : Registers HtmlPage where
  held := held
  lands := lands
  written := written
  run_missing := run_of_not_lands
  run_landed := by
    intro call page h
    cases call with
    | setText target text =>
      obtain ⟨element, helement⟩ := Option.isSome_iff_exists.1 h
      refine ⟨_, run_setText helement text, fun place => ?_, same_element h _⟩
      cases place with
      | text id =>
        simp only [held, bind_insert, Call.place, Place.text.injEq, eq_comm (a := id)]
        split <;> rfl
      | cls id =>
        exact congrArg (Option.map Held.text)
          (bind_insert_same helement { element with text := some text } (f := (·.cls)) rfl id)
      | rows | sort => rfl
    | setClass target cls =>
      obtain ⟨element, helement⟩ := Option.isSome_iff_exists.1 h
      refine ⟨_, run_setClass helement cls, fun place => ?_, same_element h _⟩
      cases place with
      | text id =>
        exact congrArg (Option.map Held.text)
          (bind_insert_same helement { element with cls := some cls } (f := (·.text)) rfl id)
      | cls id =>
        simp only [held, bind_insert, Call.place, Place.cls.injEq, eq_comm (a := id)]
        split <;> rfl
      | rows | sort => rfl
    | bindTemplate slot records =>
      obtain ⟨s, hs⟩ := Option.isSome_iff_exists.1 h
      refine ⟨_, run_bindTemplate hs records, fun place => ?_, same_slot hs _⟩
      cases place with
      | rows other =>
        simp only [held, bind_insert, Call.place, Place.rows.injEq, eq_comm (a := other), written, hs,
          Option.map_some,
          Option.getD_some]
        split <;> rfl
      | text | cls | sort => rfl
    | activateSort table intent =>
      refine ⟨_, run_activateSort h intent, fun place => ?_, rfl, rfl⟩
      cases place <;> rfl

/-- The document shows what the places hold, and nothing else of the page but its kind. -/
theorem document_congr {p q : HtmlPage} (hkind : p.kind = q.kind) (hheld : p.held = q.held) :
    p.document = q.document := by
  have htext : p.text = q.text := by
    funext id
    rw [text, text, Option.map_injective Held.text_injective (congrFun hheld (.text id))]
  have hclass : p.classAttribute = q.classAttribute := by
    funext id base
    rw [classAttribute, classAttribute, Option.map_injective Held.text_injective (congrFun hheld (.cls id))]
  have hrows : p.rows = q.rows := by
    funext slot
    rw [rows, rows, Option.map_injective Held.text_injective (congrFun hheld (.rows slot))]
  have hsort : p.sort = q.sort := Option.map_injective Held.sort_injective (congrFun hheld .sort)
  have hheader : p.header = q.header := by
    unfold header headerRow percentRow
    rw [hclass, htext]
  have hbody : p.body = q.body := by
    unfold body indexBody sourceBody
    rw [hkind, hclass, hrows]
  unfold document sortLink sortScript
  rw [htext, hheader, hbody, hsort]

end HtmlPage

/-! ## The recorder -/

namespace Recorder

/-- What a place of a recorder holds: of the rows of a slot, only how many there are. -/
def held (r : Recorder) : Place → Option Held
  | .text id => (r.texts.get? id).map .text
  | .cls id => (r.classes.get? id).map .text
  | .rows slot => (r.rows.get? slot).map .count
  | .sort => r.sort.map fun (table, intent) => .sort table intent

/-- Whether the target of a call is declared. -/
def lands (r : Recorder) : Call → Bool
  | .setText target _ | .setClass target _ => target ∈ r.ids
  | .bindTemplate slot _ => slot ∈ r.slots
  | .activateSort table _ => table ∈ r.ids

/-- What a call writes. -/
def written : Call → Held
  | .setText _ text => .text text
  | .setClass _ cls => .text cls
  | .bindTemplate _ records => .count records.length
  | .activateSort table intent => .sort table intent

/-- What is recorded of a call that lands. -/
def opOf : Call → SurfaceOp
  | .setText target text => .text target text
  | .setClass target cls => .class_ target cls
  | .bindTemplate slot records => .bind slot records.length
  | .activateSort table intent => .sort table intent

section

variable {r : Recorder}

theorem onElement_of_mem {id : String} (h : id ∈ r.ids) (update : Recorder → Recorder) :
    onElement id update r = (update r, .ok ()) := if_pos h

theorem onElement_of_not_mem {id : String} (h : id ∉ r.ids) (update : Recorder → Recorder) :
    onElement id update r = (r, .error (.noElement id)) := if_neg h

end

instance : Registers Recorder where
  held := held
  lands := lands
  written _ := written
  run_missing := by
    intro call r h
    cases call with
    | setText target text | setClass target text =>
      simp only [Call.run, DisplaySurface.setText, DisplaySurface.setClass,
        onElement_of_not_mem (of_decide_eq_false h)]
      rfl
    | bindTemplate slot records =>
      simp only [Call.run, DisplaySurface.bindTemplate, if_neg (of_decide_eq_false h)]
      rfl
    | activateSort table intent =>
      simp only [Call.run, DisplaySurface.activateSort, onElement_of_not_mem (of_decide_eq_false h)]
      rfl
  run_landed := by
    intro call r h
    cases call with
    | setText target text =>
      simp only [Call.run, DisplaySurface.setText, onElement_of_mem (of_decide_eq_true h)]
      refine ⟨_, rfl, fun place => ?_, rfl, trivial⟩
      cases place with
      | text id =>
        simp only [held, get?_insert, Call.place, Place.text.injEq, eq_comm (a := id)]
        split <;> rfl
      | cls | rows | sort => rfl
    | setClass target cls =>
      simp only [Call.run, DisplaySurface.setClass, onElement_of_mem (of_decide_eq_true h)]
      refine ⟨_, rfl, fun place => ?_, rfl, trivial⟩
      cases place with
      | cls id =>
        simp only [held, get?_insert, Call.place, Place.cls.injEq, eq_comm (a := id)]
        split <;> rfl
      | text | rows | sort => rfl
    | bindTemplate slot records =>
      simp only [Call.run, DisplaySurface.bindTemplate, if_pos (of_decide_eq_true h)]
      refine ⟨_, rfl, fun place => ?_, rfl, trivial⟩
      cases place with
      | rows other =>
        simp only [held, get?_insert, Call.place, Place.rows.injEq, eq_comm (a := other)]
        split <;> rfl
      | text | cls | sort => rfl
    | activateSort table intent =>
      simp only [Call.run, DisplaySurface.activateSort, onElement_of_mem (of_decide_eq_true h)]
      refine ⟨_, rfl, fun place => ?_, rfl, trivial⟩
      cases place <;> rfl

theorem eq_of_held {r t : Recorder} (h : r.held = t.held) :
    (∀ id, r.texts.get? id = t.texts.get? id) ∧ (∀ id, r.classes.get? id = t.classes.get? id) ∧
      (∀ slot, r.rows.get? slot = t.rows.get? slot) ∧ r.sort = t.sort :=
  ⟨fun id => Option.map_injective Held.text_injective (congrFun h (.text id)),
    fun id => Option.map_injective Held.text_injective (congrFun h (.cls id)),
    fun slot => Option.map_injective Held.count_injective (congrFun h (.rows slot)),
    Option.map_injective Held.sort_injective (congrFun h .sort)⟩

/-- The calls that land are recorded, in order. -/
theorem ops_runCalls (calls : List Call) (r : Recorder) :
    (runCalls calls r).1.ops = r.ops ++ (calls.filter r.lands).map opOf := by
  induction calls generalizing r with
  | nil => exact (List.append_nil _).symm
  | cons call rest ih =>
    have hlands : (call.run r).1.lands = r.lands := (sameShape_run call r).lands.symm
    rw [runCalls, ih, hlands]
    cases h : r.lands call with
    | true =>
      rw [List.filter_cons_of_pos h, List.map_cons, ← List.singleton_append, ← List.append_assoc]
      congr 1
      cases call with
      | setText | setClass | activateSort =>
        simp only [Call.run, DisplaySurface.setText, DisplaySurface.setClass, DisplaySurface.activateSort,
          onElement_of_mem (of_decide_eq_true h), opOf]
      | bindTemplate => simp only [Call.run, DisplaySurface.bindTemplate, if_pos (of_decide_eq_true h), opOf]
    | false =>
      have hrun : call.run r = (r, .error call.refusal) := Registers.run_missing h
      rw [List.filter_cons_of_neg (by rw [h]; exact Bool.false_ne_true), hrun]

end Recorder

end CoveragePages
