/-
Records read alike. A record that is written as an array is read field by field, in order. One that is
written as an object is read member by member; its fields are stored apart from each other, so when
no key is repeated the order of the members does not matter, and the record is the same when it is
read from the members in key order. A record is read back by one step for each of its fields.
-/
import CoveragePages.Proofs.Json.Reading
import Mathlib.Data.List.Nodup

namespace CoveragePages.Json

variable {α δ : Type}

/-! ## Fields -/

/-- A field that takes from an outline just what it takes from the outline's value. -/
def Field.Alike (field : Field δ) : Prop :=
  ∀ {o : Origin} {t : Tree} {v : Json} (draft : δ), o.Allows t.levels → readAny .value t = .ok v →
    (field.read o t draft).toOption = (field.read .value (Tree.ofJson v) draft).toOption

theorem Field.alike_of {read : Reader α} (h : ReadsAlike read) (name : String) (store : δ → α → δ) :
    (Field.of name read store).Alike := by
  intro o t v draft ho hv
  simp only [Field.of, toOption_bind, h ho hv]

/-- Two fields that may be taken in any order. -/
def Field.Apart (f g : Field δ) : Prop :=
  ∀ (o : Origin) (t t' : Tree) (draft : δ),
    ((f.read o t draft).toOption.bind fun d => (g.read o t' d).toOption) =
      (g.read o t' draft).toOption.bind fun d => (f.read o t d).toOption

theorem Field.apart_of {β : Type} {read : Reader α} {read' : Reader β} {store : δ → α → δ} {store' : δ → β → δ}
    (h : ∀ d a b, store' (store d a) b = store (store' d b) a) (name name' : String) :
    (Field.of name read store).Apart (Field.of name' read' store') := by
  intro o t t' draft
  simp only [Field.of, toOption_bind]
  cases read o t with
  | error => cases read' o t' <;> rfl
  | ok a =>
    cases read' o t' with
    | error => rfl
    | ok b => exact congrArg some (h draft a b)

namespace Shape

variable (shape : Shape δ α)

/-- A shape whose fields may come in any order, with other members among them. -/
structure Loose : Prop where
  lax : shape.strict = false
  apart : ∀ f ∈ shape.fields, ∀ g ∈ shape.fields, f.name ≠ g.name → f.Apart g

/-- A shape whose fields take what they take from values. -/
def Alike : Prop := ∀ f ∈ shape.fields, f.Alike

variable {shape}

/-! ## Arrays -/

theorem readFields_alike {o : Origin} {fields : List (Field δ)} (hfields : ∀ f ∈ fields, f.Alike) (n m : Nat)
    {ts : List Tree} {vs : List Json} (hall : List.Forall₂ (fun t v => readAny .value t = .ok v) ts vs)
    (ho : o.Allows (Tree.itemLevels ts)) (draft : δ) :
    (shape.readFields o .closed n fields ts draft).toOption =
      (shape.readFields .value .closed m fields (Tree.ofItems vs) draft).toOption := by
  induction hall generalizing fields draft with
  | nil =>
    cases fields with
    | nil => rfl
    | cons f fields =>
      simp only [Tree.ofItems, readFields, Ending.read, bind, Except.bind]
      split <;> rfl
  | @cons t v ts vs hv _ ih =>
    cases fields with
    | nil => cases o <;> rfl
    | cons f fields =>
      unfold Tree.itemLevels at ho
      have hfield := hfields f List.mem_cons_self draft (ho.mono (le_max_left _ _)) hv
      have hrest := fun d => ih (fun g hg => hfields g (List.mem_cons_of_mem f hg)) (ho.mono (le_max_right _ _)) d
      simp only [Tree.ofItems, readFields, toOption_bind, hfield, hrest]

/-! ## Objects -/

/-- What a member does to a draft, if there still is one. -/
def step (shape : Shape δ α) (o : Origin) (draft : Option δ) (m : String × Tree) : Option δ :=
  draft.bind fun d =>
    match shape.fields.find? (·.name == m.1) with
    | some field => (field.read o m.2 d).toOption
    | none => some d

theorem foldl_step_none (o : Origin) (named : List (String × Tree)) : named.foldl (shape.step o) none = none := by
  induction named with
  | nil => rfl
  | cons m named ih => exact ih

/-- Members under different keys are read by one step each. -/
theorem readMembers_eq (hlax : shape.strict = false) {o : Origin} {named : List (String × Tree)}
    (hskip : ∀ m ∈ named, m.2.skip = .ok ()) (hkeys : (named.map (·.1)).Nodup) {seen : List String}
    (hseen : ∀ m ∈ named, m.1 ∉ seen) (draft : δ) :
    (shape.readMembers o (named.map asMember) seen draft).toOption = named.foldl (shape.step o) (some draft) := by
  induction named generalizing seen draft with
  | nil => rfl
  | cons m named ih =>
    obtain ⟨name, t⟩ := m
    rw [List.map_cons, List.nodup_cons] at hkeys
    have hskip' := fun m hm => hskip m (List.mem_cons_of_mem _ hm)
    have hseen' := fun m hm => hseen m (List.mem_cons_of_mem _ hm)
    have hname : name ∉ seen := hseen (name, t) List.mem_cons_self
    have hkey : Tree.readKey (.string (.ok name)) = .ok name := rfl
    rw [List.map_cons, List.foldl_cons, asMember, readMembers, toOption_bind, hkey]
    simp only [Except.toOption, Option.bind_some]
    cases hfind : shape.fields.find? (·.name == name) with
    | some field =>
      have hstep : shape.step o (some draft) (name, t) = (field.read o t draft).toOption := by
        simp only [step, Option.bind_some, hfind]
      simp only [if_neg hname, hstep]
      cases field.read o t draft with
      | error => exact (foldl_step_none o named).symm
      | ok d =>
        refine ih hskip' hkeys.2 (fun m hm hin => ?_) d
        rcases List.mem_cons.1 hin with heq | hin
        · exact hkeys.1 (List.mem_map.2 ⟨m, hm, heq⟩)
        · exact hseen' m hm hin
    | none =>
      -- a member that no field is named after is passed over, as it reads as a value
      have hstep : shape.step o (some draft) (name, t) = some draft := by
        simp only [step, Option.bind_some, hfind]
      have hpass : t.skip = .ok () := hskip (name, t) List.mem_cons_self
      simp only [hlax, hstep, hpass, Bool.false_eq_true, if_false, bind, Except.bind]
      exact ih hskip' hkeys.2 hseen' draft

/-- Members under different keys may come in any order. -/
theorem foldl_step_perm (h : shape.Loose) (o : Origin) {named named' : List (String × Tree)}
    (hperm : named.Perm named') (hkeys : (named.map (·.1)).Nodup) (draft : Option δ) :
    named.foldl (shape.step o) draft = named'.foldl (shape.step o) draft := by
  refine hperm.foldl_eq' (fun x hx y hy draft => ?_) draft
  by_cases hxy : x.1 = y.1
  · -- one key, so one member
    rw [List.inj_on_of_nodup_map hkeys hx hy hxy]
  · cases draft with
    | none => rfl
    | some d =>
      simp only [step, Option.bind_some]
      cases hf : shape.fields.find? (·.name == x.1) with
      | none => cases shape.fields.find? (·.name == y.1) <;> simp only [Option.bind_some, Option.bind_fun_some]
      | some f =>
        cases hg : shape.fields.find? (·.name == y.1) with
        | none => simp only [Option.bind_some, Option.bind_fun_some]
        | some g =>
          have hfname : (f.name == x.1) = true := List.find?_some (p := fun f : Field δ => f.name == x.1) hf
          have hgname : (g.name == y.1) = true := List.find?_some (p := fun g : Field δ => g.name == y.1) hg
          have hne : f.name ≠ g.name := by rwa [eq_of_beq hfname, eq_of_beq hgname]
          exact h.apart f (List.mem_of_find?_eq_some hf) g (List.mem_of_find?_eq_some hg) hne o x.2 y.2 d

/-- The outline of an entry's value, under the entry's key. -/
def entryOutline (e : String × Json) : String × Tree := (e.1, Tree.ofJson e.2)

theorem foldl_step_alike (h : shape.Alike) {o : Origin} {named : List (String × Tree)} {entries : List (String × Json)}
    (hall : List.Forall₂ (fun m e => m.1 = e.1 ∧ readAny .value m.2 = .ok e.2) named entries)
    (ho : o.Allows (Tree.memberLevels (named.map asMember))) (draft : Option δ) :
    named.foldl (shape.step o) draft = (entries.map entryOutline).foldl (shape.step .value) draft := by
  induction hall generalizing draft with
  | nil => rfl
  | @cons m e named entries hme _ ih =>
    obtain ⟨hkey, hv⟩ := hme
    rw [List.map_cons, asMember, Tree.memberLevels] at ho
    have hstep : shape.step o draft m = shape.step .value draft (entryOutline e) := by
      cases draft with
      | none => rfl
      | some d =>
        simp only [step, Option.bind_some, entryOutline, hkey]
        cases hf : shape.fields.find? (·.name == e.1) with
        | none => rfl
        | some f => exact h f (List.mem_of_find?_eq_some hf) d (ho.mono (le_max_left _ _)) hv
    rw [List.foldl_cons, List.map_cons, List.foldl_cons, hstep]
    exact ih (ho.mono (le_max_right _ _)) _

end Shape

/-! ## Records -/

/-- The keys of an outline, if it is an object. -/
def Tree.keys : Tree → List String
  | .object members _ => members.filterMap fun m => m.1.readKey.toOption
  | _ => []

theorem Tree.keys_named (named : List (String × Tree)) (e : Ending) :
    (Tree.object (named.map asMember) e).keys = named.map (·.1) := by
  induction named with
  | nil => rfl
  | cons m named ih =>
    obtain ⟨name, t⟩ := m
    exact congrArg (name :: ·) ih

variable {shape : Shape δ α}

/-- The steps that read an object, up to the record of its draft. -/
theorem Shape.read_named (h : shape.Loose) (hnamed : shape.named = true) {o o' : Origin} (ho : o.enter = .ok o')
    {named : List (String × Tree)} (hskip : ∀ m ∈ named, m.2.skip = .ok ()) (hkeys : (named.map (·.1)).Nodup) :
    (shape.read o (.object (named.map asMember) .closed)).toOption =
      (named.foldl (shape.step o') (some shape.empty)).bind fun d => (shape.complete d).toOption := by
  have hmembers := Shape.readMembers_eq h.lax (o := o') hskip hkeys (fun m _ => List.not_mem_nil) shape.empty
  rw [← hmembers, ← toOption_bind, Shape.read, if_pos hnamed, ho]
  rfl

/-- A record without repeated keys is read from an outline just as from the outline's value. -/
theorem Shape.Loose.read_alike (h : shape.Loose) (halike : shape.Alike) {o : Origin} {t : Tree} {v : Json}
    (ho : o.Allows t.levels) (hv : readAny .value t = .ok v) (hkeys : t.keys.Nodup) :
    (shape.read o t).toOption = (shape.read .value (Tree.ofJson v)).toOption := by
  have hinOrder := inOrder_of_readAny hv
  cases reads_of_readAny hv with
  | @scalar v hscalar => cases v <;> first | rfl | cases hscalar
  | @array ts vs hall =>
    unfold Tree.levels at ho
    obtain ⟨o', ho', hallow⟩ := ho.enter
    simp only [Tree.ofJson, Shape.read, ho', enter_value, bind, Except.bind]
    exact Shape.readFields_alike halike _ _ hall hallow shape.empty
  | @object named entries hall =>
    by_cases hnamed : shape.named = true
    · unfold Tree.levels at ho
      obtain ⟨o', ho', hallow⟩ := ho.enter
      rw [Tree.keys_named] at hkeys
      have hsame : named.map (·.1) = entries.map (·.1) := by
        rw [← List.forall₂_eq_eq_eq, List.forall₂_map_left_iff, List.forall₂_map_right_iff]
        exact hall.imp fun m e hme => hme.1
      have hskip : ∀ m ∈ named, m.2.skip = .ok () :=
        ((List.forall₂_and_left named entries).1 (hall.imp fun m e hme => ⟨skip_of_readAny hme.2, hme⟩)).1
      have hperm : ((putAll entries []).map Shape.entryOutline).Perm (entries.map Shape.entryOutline) := by
        have hentries : (putAll entries []).Perm (entries ++ []) := putAll_perm (by rwa [List.append_nil, ← hsame])
        rw [List.append_nil] at hentries
        exact hentries.map _
      -- the value has the members in key order, and none under the same key as another
      have hnodup : (((putAll entries []).map Shape.entryOutline).map (·.1)).Nodup := by
        rw [(hperm.map _).nodup_iff, List.map_map]
        exact hsame ▸ hkeys
      have hskip' : ∀ m ∈ (putAll entries []).map Shape.entryOutline, m.2.skip = .ok () := by
        intro m hm
        obtain ⟨e, he, rfl⟩ := List.mem_map.1 hm
        cases hinOrder with
        | scalar hscalar => cases hscalar
        | object _ hvalues => exact skip_of_readAny (readAny_ofJson (hvalues e he))
      rw [Tree.ofJson, ofMembers_eq, Shape.read_named h hnamed ho' hskip hkeys]
      have hvalue := Shape.read_named h hnamed enter_value hskip' hnodup
      rw [List.map_map] at hvalue
      rw [Shape.foldl_step_alike halike hall hallow, ← Shape.foldl_step_perm h .value hperm hnodup]
      exact hvalue.symm
    · simp only [Tree.ofJson, Shape.read, if_neg hnamed]
      rfl

/-! ## Steps -/

section

variable {o : Origin} {t : Tree} {field : Field δ} {draft draft' : δ}

theorem Field.read_of {read : Reader α} {a : α} (h : read o t = .ok a) (name : String) (store : δ → α → δ) (draft : δ) :
    (Field.of name read store).read o t draft = .ok (store draft a) := by
  simp only [Field.of, h]
  rfl

theorem Shape.readFields_cons (h : field.read o t draft = .ok draft') (ending : Ending) (length : Nat)
    (fields : List (Field δ)) (ts : List Tree) :
    shape.readFields o ending length (field :: fields) (t :: ts) draft =
      shape.readFields o ending length fields ts draft' := by
  rw [readFields, h]
  rfl

theorem Shape.readMembers_cons {name : String} (hfind : shape.fields.find? (·.name == name) = some field)
    {seen : List String} (hseen : name ∉ seen) (h : field.read o t draft = .ok draft') (named : List (String × Tree)) :
    shape.readMembers o (((name, t) :: named).map asMember) seen draft =
      shape.readMembers o (named.map asMember) (name :: seen) draft' := by
  have hkey : Tree.readKey (.string (.ok name)) = .ok name := rfl
  rw [List.map_cons, asMember, readMembers, hkey]
  simp only [bind, Except.bind, hfind, if_neg hseen, h]

theorem Shape.read_object (hnamed : shape.named = true) {o' : Origin} (ho : o.enter = .ok o')
    {named : List (String × Tree)}
    (h : shape.readMembers o' (named.map asMember) [] shape.empty = .ok draft) :
    shape.read o (.object (named.map asMember) .closed) = shape.complete draft := by
  rw [read, if_pos hnamed, ho]
  simp only [bind, Except.bind, h]
  rfl

end

end CoveragePages.Json
