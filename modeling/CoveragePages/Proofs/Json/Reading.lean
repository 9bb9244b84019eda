/-
Reading values of any shape. What is read does not depend on where an outline comes from, as long as
a text may nest that deep; it has the members of every object in key order; and it is read again from
its own outline. A reader of typed values reads alike if it reads from a text just what it reads from
the value of the text, and reads back if it gives every typed value from its encoding.
-/
import CoveragePages.Json.Decode
import CoveragePages.Proofs.Dict
import CoveragePages.Proofs.Json.Grammar
import Mathlib.Data.List.Forall2

namespace CoveragePages.Json

/-! ## Nesting -/

namespace Tree

mutual

/-- How many levels of arrays and objects an outline has. -/
def levels : Tree → Nat
  | array items _ => itemLevels items + 1
  | object members _ => memberLevels members + 1
  | null | bool _ | number _ | string _ | broken _ => 0

/-- How many levels the deepest of some items has. -/
def itemLevels : List Tree → Nat
  | [] => 0
  | item :: rest => max (levels item) (itemLevels rest)

/-- How many levels the deepest value of some members has. -/
def memberLevels : List (Tree × Tree) → Nat
  | [] => 0
  | (_, value) :: rest => max (levels value) (memberLevels rest)

end

end Tree

/-- Whether an outline with some number of levels may come from an origin. -/
def Origin.Allows : Origin → Nat → Prop
  | text depth, n => n ≤ depth
  | value, _ => True

theorem Origin.Allows.mono {o : Origin} {m n : Nat} (h : o.Allows n) (hmn : m ≤ n) : o.Allows m := by
  cases o with
  | text depth => exact Nat.le_trans hmn h
  | value => trivial

theorem Origin.Allows.enter {o : Origin} {n : Nat} (h : o.Allows (n + 1)) : ∃ o', o.enter = .ok o' ∧ o'.Allows n := by
  cases o with
  | value => exact ⟨.value, rfl, trivial⟩
  | text depth =>
    cases depth with
    | zero => exact absurd h (Nat.not_succ_le_zero n)
    | succ depth => exact ⟨.text depth, rfl, Nat.le_of_succ_le_succ h⟩

theorem enter_value : Origin.value.enter = .ok .value := rfl

mutual

/-- What is read does not depend on the origin, where the nesting is allowed. -/
theorem readAny_origin : ∀ {t : Tree} {o o' : Origin}, o.Allows t.levels → o'.Allows t.levels →
    readAny o t = readAny o' t
  | .array items ending, o, o', h, h' => by
    unfold Tree.levels at h h'
    obtain ⟨a, ha, hallow⟩ := h.enter
    obtain ⟨a', ha', hallow'⟩ := h'.enter
    unfold readAny
    rw [ha, ha']
    simp only [bind, Except.bind, readAnyItems_origin hallow hallow']
  | .object members ending, o, o', h, h' => by
    unfold Tree.levels at h h'
    obtain ⟨a, ha, hallow⟩ := h.enter
    obtain ⟨a', ha', hallow'⟩ := h'.enter
    unfold readAny
    rw [ha, ha']
    simp only [bind, Except.bind, readAnyMembers_origin hallow hallow']
  | .null, _, _, _, _ => by unfold readAny; rfl
  | .bool _, _, _, _, _ => by unfold readAny; rfl
  | .number n, _, _, _, _ => by cases n <;> (unfold readAny; rfl)
  | .string s, _, _, _, _ => by cases s <;> (unfold readAny; rfl)
  | .broken _, _, _, _, _ => by unfold readAny; rfl

theorem readAnyItems_origin : ∀ {ts : List Tree} {o o' : Origin}, o.Allows (Tree.itemLevels ts) →
    o'.Allows (Tree.itemLevels ts) → readAnyItems o ts = readAnyItems o' ts
  | [], _, _, _, _ => rfl
  | item :: rest, o, o', h, h' => by
    unfold Tree.itemLevels at h h'
    unfold readAnyItems
    rw [readAny_origin (h.mono (le_max_left _ _)) (h'.mono (le_max_left _ _)),
      readAnyItems_origin (h.mono (le_max_right _ _)) (h'.mono (le_max_right _ _))]

theorem readAnyMembers_origin : ∀ {ms : List (Tree × Tree)} {o o' : Origin}, o.Allows (Tree.memberLevels ms) →
    o'.Allows (Tree.memberLevels ms) → ∀ {d : Dict Json}, readAnyMembers o ms d = readAnyMembers o' ms d
  | [], _, _, _, _, _ => rfl
  | (key, value) :: rest, o, o', h, h', d => by
    unfold Tree.memberLevels at h h'
    unfold readAnyMembers
    rw [readAny_origin (h.mono (le_max_left _ _)) (h'.mono (le_max_left _ _))]
    simp only [readAnyMembers_origin (h.mono (le_max_right _ _)) (h'.mono (le_max_right _ _))]

end

/-! ## What is read -/

theorem readAnyItems_ok {o : Origin} {ts : List Tree} {vs : List Json} :
    readAnyItems o ts = .ok vs ↔ List.Forall₂ (fun t v => readAny o t = .ok v) ts vs := by
  induction ts generalizing vs with
  | nil =>
    unfold readAnyItems
    constructor
    · intro h; cases h; exact .nil
    · intro h; cases h; rfl
  | cons t ts ih =>
    unfold readAnyItems
    constructor
    · intro h
      obtain ⟨v, hv, h⟩ := bind_ok h
      obtain ⟨rest, hrest, h⟩ := bind_ok h
      cases h
      exact .cons hv (ih.1 hrest)
    · intro h
      cases h with
      | cons hv hrest =>
        rw [hv, ih.2 hrest]
        rfl

theorem readKey_ok {t : Tree} {key : String} (h : t.readKey = .ok key) : t = .string (.ok key) := by
  unfold Tree.readKey at h
  split at h <;> cases h
  rfl

/-- The member of an outline with a name and a value. -/
def asMember (m : String × Tree) : Tree × Tree := (.string (.ok m.1), m.2)

/-- The dictionary of entries, put in one after the other. -/
def putAll (entries : List (String × Json)) (d : Dict Json) : Dict Json :=
  entries.foldl (fun d e => Dict.insert d e.1 e.2) d

theorem readAnyMembers_ok {o : Origin} {ms : List (Tree × Tree)} {d d' : Dict Json}
    (h : readAnyMembers o ms d = .ok d') : ∃ (named : List (String × Tree)) (entries : List (String × Json)),
      ms = named.map asMember ∧ d' = putAll entries d ∧
      List.Forall₂ (fun m e => m.1 = e.1 ∧ readAny o m.2 = .ok e.2) named entries := by
  induction ms generalizing d with
  | nil =>
    unfold readAnyMembers at h
    cases h
    exact ⟨[], [], rfl, rfl, .nil⟩
  | cons m ms ih =>
    obtain ⟨key, value⟩ := m
    unfold readAnyMembers at h
    obtain ⟨name, hname, h⟩ := bind_ok h
    obtain ⟨v, hv, h⟩ := bind_ok h
    obtain ⟨named, entries, rfl, rfl, hall⟩ := ih h
    rw [readKey_ok hname]
    exact ⟨(name, value) :: named, (name, v) :: entries, rfl, rfl, .cons ⟨rfl, hv⟩ hall⟩

/-- A value that is no array or object. -/
def IsScalar : Json → Prop
  | .array _ | .object _ => False
  | _ => True

/-- How an outline reads as a value, whatever its origin is. -/
inductive Reads : Tree → Json → Prop
  | scalar {v : Json} : IsScalar v → Reads (Tree.ofJson v) v
  | array {ts : List Tree} {vs : List Json} : List.Forall₂ (fun t v => readAny .value t = .ok v) ts vs →
      Reads (.array ts .closed) (.array vs)
  | object {named : List (String × Tree)} {entries : List (String × Json)} :
      List.Forall₂ (fun m e => m.1 = e.1 ∧ readAny .value m.2 = .ok e.2) named entries →
      Reads (.object (named.map asMember) .closed) (.object (putAll entries []))

theorem endingRead_ok {e : Ending} (h : e.read = .ok ()) : e = .closed := by
  cases e with
  | closed => rfl
  | broken => cases h

theorem reads_of_readAny {t : Tree} {v : Json} (h : readAny .value t = .ok v) : Reads t v := by
  have hscalar : ∀ w : Json, IsScalar w → t = Tree.ofJson w → w = v → Reads t v := by
    rintro w hw rfl rfl
    exact .scalar hw
  cases t with
  | array ts e =>
    unfold readAny at h
    obtain ⟨o, ho, h⟩ := bind_ok h
    cases ho
    obtain ⟨vs, hvs, h⟩ := bind_ok h
    obtain ⟨⟨⟩, he, h⟩ := bind_ok h
    cases h
    rw [endingRead_ok he]
    exact .array (readAnyItems_ok.1 hvs)
  | object ms e =>
    unfold readAny at h
    obtain ⟨o, ho, h⟩ := bind_ok h
    cases ho
    obtain ⟨d, hd, h⟩ := bind_ok h
    obtain ⟨⟨⟩, he, h⟩ := bind_ok h
    cases h
    obtain ⟨named, entries, rfl, rfl, hall⟩ := readAnyMembers_ok hd
    rw [endingRead_ok he]
    exact .object hall
  | null => unfold readAny at h; cases h; exact hscalar .null trivial rfl rfl
  | bool b => unfold readAny at h; cases h; exact hscalar (.bool b) trivial rfl rfl
  | number n =>
    cases n with
    | integer i => unfold readAny at h; cases h; exact hscalar (.integer i) trivial rfl rfl
    | float x => unfold readAny at h; cases h; exact hscalar (.float x) trivial rfl rfl
    | outOfRange => unfold readAny at h; cases h
  | string s =>
    cases s with
    | ok s => unfold readAny at h; cases h; exact hscalar (.string s) trivial rfl rfl
    | error => unfold readAny at h; cases h
  | broken => unfold readAny at h; cases h

/-! ## Members in key order -/

/-- A value with the members of every object in key order, each key once. -/
inductive InOrder : Json → Prop
  | scalar {v : Json} : IsScalar v → InOrder v
  | array {vs : List Json} : (∀ v ∈ vs, InOrder v) → InOrder (.array vs)
  | object {d : Dict Json} : d.Sorted → (∀ e ∈ d, InOrder e.2) → InOrder (.object d)

theorem putAll_sorted {d : Dict Json} (h : d.Sorted) (entries : List (String × Json)) : (putAll entries d).Sorted := by
  induction entries generalizing d with
  | nil => exact h
  | cons e entries ih => exact ih (h.insert e.1 e.2)

theorem mem_putAll {entries : List (String × Json)} {d : Dict Json} {e : String × Json} (h : e ∈ putAll entries d) :
    e ∈ entries ∨ e ∈ d := by
  induction entries generalizing d with
  | nil => exact .inr h
  | cons x entries ih =>
    rcases ih h with h | h
    · exact .inl (List.mem_cons_of_mem _ h)
    · rcases Dict.mem_insert h with rfl | h
      · exact .inl List.mem_cons_self
      · exact .inr h

/-- Entries that are in order already are put at the end. -/
theorem putAll_append {d entries : Dict Json} (h : (d ++ entries).Sorted) : putAll entries d = d ++ entries := by
  induction entries generalizing d with
  | nil => exact (List.append_nil d).symm
  | cons e entries ih =>
    have hlast : ∀ x ∈ d, x.1 < e.1 := fun x hx => (List.pairwise_append.1 h).2.2 x hx e List.mem_cons_self
    have heq : d ++ e :: entries = d ++ [e] ++ entries := by rw [List.append_assoc, List.singleton_append]
    rw [heq] at h ⊢
    rw [← ih h]
    exact congrArg (putAll entries) (Dict.insert_last hlast e.2)

/-- Entries under different keys are all kept. -/
theorem putAll_perm {entries : List (String × Json)} {d : Dict Json} (h : ((entries ++ d).map (·.1)).Nodup) :
    (putAll entries d).Perm (entries ++ d) := by
  induction entries generalizing d with
  | nil => exact .refl _
  | cons e entries ih =>
    rw [List.cons_append, List.map_cons, List.nodup_cons] at h
    have hne : ∀ x ∈ d, x.1 ≠ e.1 := by
      intro x hx heq
      exact h.1 (heq ▸ List.mem_map_of_mem (List.mem_append_right _ hx))
    have hperm := (Dict.insert_perm hne e.2).append_left entries
    -- `e` goes into `d` first, and the other entries after it
    have hmid : (entries ++ Dict.insert d e.1 e.2).Perm (e :: (entries ++ d)) := hperm.trans List.perm_middle
    have hnodup : ((entries ++ Dict.insert d e.1 e.2).map (·.1)).Nodup := by
      rw [(hmid.map (·.1)).nodup_iff, List.map_cons, List.nodup_cons]
      exact h
    exact (ih hnodup).trans hmid

section

variable {P : Tree → Json → Prop}

/-- Induction over the outlines that read as values. -/
theorem reads_induct (scalar : ∀ v, IsScalar v → P (Tree.ofJson v) v)
    (array : ∀ ts vs, List.Forall₂ (fun t v => readAny .value t = .ok v ∧ P t v) ts vs →
      P (.array ts .closed) (.array vs))
    (object : ∀ named entries,
      List.Forall₂ (fun m e => m.1 = e.1 ∧ readAny .value m.2 = .ok e.2 ∧ P m.2 e.2) named entries →
      P (.object (named.map asMember) .closed) (.object (putAll entries []))) :
    ∀ {t : Tree} {v : Json}, readAny .value t = .ok v → P t v := by
  -- the items and values of `t` are smaller than `t`
  have hall : ∀ n : Nat, ∀ {t : Tree} {v : Json}, sizeOf t < n → readAny .value t = .ok v → P t v := by
    intro n
    induction n with
    | zero => intro t v hn; omega
    | succ n ih =>
      intro t v hn h
      cases reads_of_readAny h with
      | scalar hv => exact scalar v hv
      | @array ts vs hall =>
        refine array ts vs (List.forall₂_iff_zip.2 ⟨hall.length_eq, fun hab => ?_⟩)
        have hread := List.forall₂_zip hall hab
        have hsize := List.sizeOf_lt_of_mem (List.of_mem_zip hab).1
        rw [Tree.array.sizeOf_spec] at hn
        exact ⟨hread, ih (by omega) hread⟩
      | @object named entries hall =>
        refine object named entries (List.forall₂_iff_zip.2 ⟨hall.length_eq, @fun m e hab => ?_⟩)
        obtain ⟨hkey, hread⟩ := List.forall₂_zip hall hab
        have hmem : asMember m ∈ named.map asMember := List.mem_map_of_mem (List.of_mem_zip hab).1
        have hsize := List.sizeOf_lt_of_mem hmem
        rw [Tree.object.sizeOf_spec] at hn
        rw [asMember, Prod.mk.sizeOf_spec] at hsize
        exact ⟨hkey, hread, ih (by omega) hread⟩
  exact fun {t v} => hall _ (Nat.lt_succ_self (sizeOf t))

end

/-- Whatever is read has its members in order. -/
theorem inOrder_of_readAny {t : Tree} {v : Json} (h : readAny .value t = .ok v) : InOrder v := by
  refine reads_induct (P := fun _ v => InOrder v) (fun v hv => .scalar hv) ?_ ?_ h
  · intro ts vs hall
    refine .array ?_
    induction hall with
    | nil => exact List.forall_mem_nil _
    | cons hab _ ih => exact List.forall_mem_cons.2 ⟨hab.2, ih⟩
  · intro named entries hall
    have hentries : ∀ e ∈ entries, InOrder e.2 := by
      induction hall with
      | nil => exact List.forall_mem_nil _
      | cons hab _ ih => exact List.forall_mem_cons.2 ⟨hab.2.2, ih⟩
    exact .object (putAll_sorted Dict.sorted_nil entries) fun e he =>
      hentries e ((mem_putAll he).resolve_right List.not_mem_nil)

/-- Whatever reads as a value can be passed over. -/
theorem skip_of_readAny {t : Tree} {v : Json} (h : readAny .value t = .ok v) : t.skip = .ok () := by
  refine reads_induct (P := fun t _ => t.skip = .ok ()) ?_ ?_ ?_ h
  · intro v hv
    cases v with
    | array | object => cases hv
    | null | bool | integer | float | string => rfl
  · intro ts vs hall
    have hitems : Tree.skipItems ts = .ok () := by
      induction hall with
      | nil => rfl
      | cons hab _ ih =>
        unfold Tree.skipItems
        rw [hab.2, ih]
        rfl
    unfold Tree.skip
    rw [hitems]
    rfl
  · intro named entries hall
    have hmembers : Tree.skipMembers (named.map asMember) = .ok () := by
      induction hall with
      | nil => rfl
      | cons hab _ ih =>
        have hkey : ∀ key, Tree.skip (.string (.ok key)) = .ok () := fun _ => rfl
        rw [List.map_cons, asMember, Tree.skipMembers, hkey, hab.2.2, ih]
        rfl
    unfold Tree.skip
    rw [hmembers]
    rfl

theorem ofItems_eq (vs : List Json) : Tree.ofItems vs = vs.map Tree.ofJson := by
  induction vs with
  | nil => rfl
  | cons v vs ih => rw [Tree.ofItems, ih, List.map_cons]

theorem ofMembers_eq (d : Dict Json) : Tree.ofMembers d = d.map fun e => asMember (e.1, Tree.ofJson e.2) := by
  induction d with
  | nil => rfl
  | cons e d ih =>
    obtain ⟨key, value⟩ := e
    rw [Tree.ofMembers, ih, List.map_cons, asMember]

theorem readAnyMembers_ofMembers {entries d : Dict Json}
    (h : ∀ e ∈ entries, readAny .value (Tree.ofJson e.2) = .ok e.2) :
    readAnyMembers .value (Tree.ofMembers entries) d = .ok (putAll entries d) := by
  induction entries generalizing d with
  | nil => rfl
  | cons e entries ih =>
    obtain ⟨key, value⟩ := e
    unfold Tree.ofMembers readAnyMembers
    rw [h (key, value) List.mem_cons_self]
    exact ih fun e he => h e (List.mem_cons_of_mem _ he)

/-- A value with its members in order is read again from its outline. -/
theorem readAny_ofJson {v : Json} (h : InOrder v) : readAny .value (Tree.ofJson v) = .ok v := by
  induction h with
  | @scalar v hv =>
    cases v with
    | array | object => cases hv
    | null | bool | integer | float | string => rfl
  | @array vs _ ih =>
    have hitems : readAnyItems .value (Tree.ofItems vs) = .ok vs := by
      rw [ofItems_eq, readAnyItems_ok, List.forall₂_map_left_iff, List.forall₂_same]
      exact ih
    unfold Tree.ofJson readAny
    simp only [Origin.enter, bind, Except.bind, hitems, Ending.read]
    rfl
  | @object d hsorted _ ih =>
    have hmembers : readAnyMembers .value (Tree.ofMembers d) [] = .ok d := by
      rw [readAnyMembers_ofMembers ih]
      exact congrArg Except.ok (putAll_append hsorted)
    unfold Tree.ofJson readAny
    simp only [Origin.enter, bind, Except.bind, hmembers, Ending.read]
    rfl

/-! ## Readers that read alike -/

/-- Whether steps succeed one after the other, and with what. -/
theorem toOption_bind {ε α β : Type} (x : Except ε α) (f : α → Except ε β) :
    (x >>= f).toOption = x.toOption.bind fun a => (f a).toOption := by
  cases x <;> rfl

theorem toOption_foldlM {ε α β : Type} (f : β → α → Except ε β) (as : List α) (b : Option β) :
    (b.bind fun b => (as.foldlM f b).toOption) = as.foldl (fun b a => b.bind fun b => (f b a).toOption) b := by
  induction as generalizing b with
  | nil => cases b <;> rfl
  | cons a as ih =>
    rw [List.foldl_cons, ← ih]
    cases b with
    | none => rfl
    | some b => exact toOption_bind (f b a) fun b => as.foldlM f b

section

variable {α : Type}

/-- A reader that reads from an outline just what it reads from the outline's value. -/
def ReadsAlike (read : Reader α) : Prop :=
  ∀ {o : Origin} {t : Tree} {v : Json}, o.Allows t.levels → readAny .value t = .ok v →
    (read o t).toOption = (read .value (Tree.ofJson v)).toOption

/-- A reader of scalars that does not look where an outline comes from reads alike. -/
theorem readsAlike_of_scalar {read : Reader α} (horigin : ∀ o o' t, read o t = read o' t)
    (harray : ∀ o ts e, (read o (.array ts e)).toOption = none)
    (hobject : ∀ o ms e, (read o (.object ms e)).toOption = none) : ReadsAlike read := by
  intro o t v _ h
  cases reads_of_readAny h with
  | scalar => rw [horigin o .value]
  | array => rw [harray, Tree.ofJson, harray]
  | object => rw [hobject, Tree.ofJson, hobject]

theorem readsAlike_string : ReadsAlike readString := by
  refine readsAlike_of_scalar (fun _ _ t => ?_) (fun _ _ _ => rfl) (fun _ _ _ => rfl)
  cases t with
  | string s => cases s <;> rfl
  | null | bool | number | array | object | broken => rfl

theorem readsAlike_nat (limit : Nat) (expected : String) : ReadsAlike (readNat limit expected) := by
  refine readsAlike_of_scalar (fun _ _ t => ?_) (fun _ _ _ => rfl) (fun _ _ _ => rfl)
  cases t with
  | number n => cases n <;> rfl
  | null | bool | string | array | object | broken => rfl

/-- A number that is read from an outline is the number that its value is. -/
theorem readFloat_toNumber? {o : Origin} {t : Tree} {v : Json} (h : readAny .value t = .ok v) :
    (readFloat o t).toOption = v.toNumber? := by
  cases reads_of_readAny h with
  | array | object => rfl
  | scalar =>
    cases v with
    | null | bool | integer | float | string | array | object => rfl

/-- The members of a value that is an object. -/
def members? : Json → Option (Dict Json)
  | .object d => some d
  | _ => none

theorem readObject_toOption {o : Origin} {t : Tree} {v : Json} (h : readAny o t = .ok v) :
    (readObject o t).toOption = v.members? := by
  cases t with
  | object ms e =>
    unfold readAny at h
    obtain ⟨o', ho, h⟩ := bind_ok h
    obtain ⟨d, hd, h⟩ := bind_ok h
    obtain ⟨⟨⟩, he, h⟩ := bind_ok h
    cases h
    simp only [readObject, ho, bind, Except.bind, hd, he]
    rfl
  | array ts e =>
    unfold readAny at h
    obtain ⟨o', ho, h⟩ := bind_ok h
    obtain ⟨vs, hvs, h⟩ := bind_ok h
    obtain ⟨⟨⟩, he, h⟩ := bind_ok h
    cases h
    rfl
  | number n =>
    cases n with
    | integer | float => unfold readAny at h; cases h; rfl
    | outOfRange => unfold readAny at h; cases h
  | string s =>
    cases s with
    | ok => unfold readAny at h; cases h; rfl
    | error => unfold readAny at h; cases h
  | null | bool => unfold readAny at h; cases h; rfl
  | broken => unfold readAny at h; cases h

theorem readsAlike_object : ReadsAlike readObject := by
  intro o t v ho h
  have horigin : readAny o t = .ok v := (readAny_origin ho (show Origin.value.Allows t.levels from trivial)).trans h
  rw [readObject_toOption horigin, readObject_toOption (readAny_ofJson (inOrder_of_readAny h))]

theorem readsAlike_items {read : Reader α} (hread : ReadsAlike read) {o : Origin} {ts : List Tree} {vs : List Json}
    (hall : List.Forall₂ (fun t v => readAny .value t = .ok v) ts vs) (ho : o.Allows (Tree.itemLevels ts)) :
    (readItems read o .closed ts).toOption = (readItems read .value .closed (Tree.ofItems vs)).toOption := by
  induction hall with
  | nil => rfl
  | @cons t v ts vs hv _ ih =>
    unfold Tree.itemLevels at ho
    have hitem := hread (ho.mono (le_max_left _ _)) hv
    have hrest := ih (ho.mono (le_max_right _ _))
    simp only [Tree.ofItems, readItems, toOption_bind, hitem, hrest]

/-- A list is read alike if its items are. -/
theorem readsAlike_list {read : Reader α} (hread : ReadsAlike read) : ReadsAlike (readList read) := by
  intro o t v ho h
  cases reads_of_readAny h with
  | @scalar v hv => cases v <;> first | rfl | cases hv
  | object => rfl
  | @array ts vs hall =>
    unfold Tree.levels at ho
    obtain ⟨o', ho', hallow⟩ := ho.enter
    simp only [Tree.ofJson, readList, ho', enter_value, bind, Except.bind]
    exact readsAlike_items hread hall hallow

end

/-! ## Values read back -/

section

variable {α : Type} {read : Reader α} {encode : α → Json} {o : Origin} {n : Nat}

/-- A reader that gives back every value from its encoding, wherever so many levels are allowed. -/
def ReadsBack (read : Reader α) (encode : α → Json) (n : Nat) : Prop :=
  ∀ {o : Origin} (a : α), o.Allows n → read o (Tree.ofJson (encode a)) = .ok a

theorem readsBack_string : ReadsBack readString Json.string 0 := fun _ _ => rfl

theorem readNat_ofNat {limit k : Nat} (h : k < limit) (expected : String) :
    readNat limit expected o (Tree.ofJson (.ofNat k)) = .ok k := by
  have hrange : (0 : Int) ≤ k ∧ (k : Int) < limit := by omega
  rw [Json.ofNat, Tree.ofJson, readNat, if_pos hrange, Int.toNat_natCast]

theorem readItems_ofItems (h : ReadsBack read encode n) (ho : o.Allows n) (as : List α) :
    readItems read o .closed (Tree.ofItems (as.map encode)) = .ok as := by
  induction as with
  | nil => rfl
  | cons a as ih =>
    rw [List.map_cons, Tree.ofItems, readItems, h a ho, ih]
    rfl

/-- A list is read back if its items are. -/
theorem readsBack_list (h : ReadsBack read encode n) :
    ReadsBack (readList read) (fun as => .array (as.map encode)) (n + 1) := by
  intro o as ho
  obtain ⟨o', ho', hallow⟩ := ho.enter
  simp only [Tree.ofJson, readList, ho', bind, Except.bind, readItems_ofItems h hallow as]

/-- A value is read back from every text that spells its encoding. -/
theorem readText_spelled (h : ReadsBack read encode n) (hn : n ≤ maxDepth) {a : α} {text : String}
    (htext : SpelledText (Tree.ofJson (encode a)) text.toList) : readText read text = .ok a := by
  simp only [readText, outline_of_spelled htext, h a (show Origin.Allows (.text maxDepth) n from hn)]
  rfl

end

end CoveragePages.Json
