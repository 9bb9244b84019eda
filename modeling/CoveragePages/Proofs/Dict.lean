/-
Dictionaries: lookup after any insertion, the order of the keys, and what insertion does to the
entries as a list.
-/
import CoveragePages.Dict
import Mathlib.Data.String.Basic

namespace CoveragePages.Dict

variable {α : Type}

/-! ## Lookup -/

theorem get?_insert (d : Dict α) (key other : String) (value : α) :
    (d.insert key value).get? other = if other = key then some value else d.get? other := by
  by_cases h : other = key
  · rw [if_pos h, h, get?_insert_self]
  · rw [if_neg h, get?_insert_of_ne d value h]

/-- Replacing the value under a key that is there declares nothing new. -/
theorem isSome_insert {d : Dict α} {key : String} (h : (d.get? key).isSome) (value : α) (other : String) :
    ((d.insert key value).get? other).isSome = (d.get? other).isSome := by
  rw [get?_insert]
  split
  · rename_i heq
    rw [heq, h]
    rfl
  · rfl

/-- What a new value under one key does to a part of all values. -/
theorem bind_insert {β : Type} (d : Dict α) (key : String) (value : α) (f : α → Option β) (other : String) :
    ((d.insert key value).get? other).bind f = if other = key then f value else (d.get? other).bind f := by
  rw [get?_insert]
  split <;> rfl

/-- A part that an update leaves alone stays the same everywhere. -/
theorem bind_insert_same {β : Type} {d : Dict α} {key : String} {a : α} (h : d.get? key = some a) (value : α)
    {f : α → Option β} (hf : f value = f a) (other : String) :
    ((d.insert key value).get? other).bind f = (d.get? other).bind f := by
  rw [bind_insert]
  split
  · rename_i heq
    rw [heq, h, hf]
    rfl
  · rfl

theorem get?_ofEntries_map (keys : List String) (value : α) (key : String) :
    (ofEntries (keys.map fun k => (k, value))).get? key = if key ∈ keys then some value else none := by
  have hfold : ∀ d : Dict α, ((keys.map fun k => (k, value)).foldl (fun d e => insert d e.1 e.2) d).get? key =
      if key ∈ keys then some value else d.get? key := by
    induction keys with
    | nil => intro d; rfl
    | cons k keys ih =>
      intro d
      rw [List.map_cons, List.foldl_cons, ih, get?_insert]
      by_cases hk : key = k
      · simp only [hk, List.mem_cons, true_or, if_true, ite_self]
      · simp only [List.mem_cons, hk, false_or, if_false]
  exact hfold []

/-! ## The order of the keys -/

/-- A dictionary whose keys are in order, each once. -/
def Sorted (d : Dict α) : Prop := d.Pairwise fun a b => a.1 < b.1

theorem sorted_nil : Sorted ([] : Dict α) := .nil

theorem mem_insert {d : Dict α} {key : String} {value : α} {e : String × α} (h : e ∈ d.insert key value) :
    e = (key, value) ∨ e ∈ d := by
  induction d with
  | nil => exact .inl (List.mem_singleton.1 h)
  | cons x rest ih =>
    obtain ⟨k, v⟩ := x
    unfold insert at h
    split at h
    · rcases List.mem_cons.1 h with h | h
      · exact .inl h
      · exact .inr (List.mem_cons_of_mem _ h)
    · split at h
      · exact List.mem_cons.1 h
      · rcases List.mem_cons.1 h with h | h
        · exact .inr (List.mem_cons.2 (.inl h))
        · rcases ih h with h | h
          · exact .inl h
          · exact .inr (List.mem_cons_of_mem _ h)

theorem Sorted.insert {d : Dict α} (h : d.Sorted) (key : String) (value : α) : (d.insert key value).Sorted := by
  induction d with
  | nil => exact List.pairwise_singleton _ _
  | cons x rest ih =>
    obtain ⟨k, v⟩ := x
    obtain ⟨hall, hrest⟩ := List.pairwise_cons.1 h
    unfold Dict.insert
    split
    · rename_i hk
      subst hk
      exact List.pairwise_cons.2 ⟨hall, hrest⟩
    · rename_i hne
      split
      · rename_i hlt
        refine List.pairwise_cons.2 ⟨fun e he => ?_, h⟩
        rcases List.mem_cons.1 he with rfl | he
        · exact hlt
        · exact lt_trans hlt (hall e he)
      · rename_i hnlt
        have hlt : k < key := lt_of_le_of_ne (not_lt.1 hnlt) hne
        refine List.pairwise_cons.2 ⟨fun e he => ?_, ih hrest⟩
        rcases mem_insert he with rfl | he
        · exact hlt
        · exact hall e he

/-- A key that is greater than all others goes to the end. -/
theorem insert_last {d : Dict α} {key : String} (h : ∀ e ∈ d, e.1 < key) (value : α) :
    d.insert key value = d ++ [(key, value)] := by
  induction d with
  | nil => rfl
  | cons x rest ih =>
    obtain ⟨k, v⟩ := x
    have hk : k < key := h (k, v) List.mem_cons_self
    rw [insert, if_neg hk.ne, if_neg hk.not_gt, ih fun e he => h e (List.mem_cons_of_mem _ he), List.cons_append]

/-- A new key adds its entry and changes no other. -/
theorem insert_perm {d : Dict α} {key : String} (h : ∀ e ∈ d, e.1 ≠ key) (value : α) :
    (d.insert key value).Perm ((key, value) :: d) := by
  induction d with
  | nil => exact .refl _
  | cons x rest ih =>
    obtain ⟨k, v⟩ := x
    have hk : k ≠ key := h (k, v) List.mem_cons_self
    rw [insert, if_neg hk]
    split
    · exact .refl _
    · exact ((ih fun e he => h e (List.mem_cons_of_mem _ he)).cons (k, v)).trans (.swap _ _ _)

end CoveragePages.Dict
