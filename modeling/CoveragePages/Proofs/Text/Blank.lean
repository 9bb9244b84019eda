/-
Trimming: what is left of a text has no white space at its ends, and what is taken off is white space.
-/
import CoveragePages.Text.Blank
import Mathlib.Data.List.TakeWhile

namespace CoveragePages.Text

/-- A text without white space at its ends. -/
structure Trimmed (cs : List Char) : Prop where
  start : ∀ c, cs.head? = some c → isBlank c = false
  finish : ∀ c, cs.getLast? = some c → isBlank c = false

theorem Trimmed.reverse {cs : List Char} (h : Trimmed cs) : Trimmed cs.reverse where
  start c hc := h.finish c (by rwa [List.head?_reverse] at hc)
  finish c hc := h.start c (by rwa [List.getLast?_reverse] at hc)

theorem trimStart_append {s : List Char} (hs : ∀ c ∈ s, isBlank c = true) {cs : List Char}
    (h : ∀ c, cs.head? = some c → isBlank c = false) : trimStart (s ++ cs) = cs := by
  rw [trimStart, List.dropWhile_append_of_pos hs]
  cases cs with
  | nil => rfl
  | cons c cs =>
    rw [List.dropWhile_cons_of_neg]
    rw [h c rfl]
    decide

/-- White space around a text is taken off it. -/
theorem trim_append {a cs z : List Char} (ha : ∀ c ∈ a, isBlank c = true) (h : Trimmed cs)
    (hz : ∀ c ∈ z, isBlank c = true) : trim (a ++ (cs ++ z)) = cs := by
  cases cs with
  | nil =>
    -- nothing is left, and the end is at the start
    have hall : ∀ c ∈ a ++ z, isBlank c = true := fun c hc => (List.mem_append.1 hc).elim (ha c) (hz c)
    have hstart : trimStart (a ++ z ++ []) = [] := trimStart_append hall nofun
    rw [List.append_nil] at hstart
    rw [List.nil_append, trim, hstart]
    rfl
  | cons c cs =>
    have hstart : trimStart (a ++ (c :: cs ++ z)) = c :: cs ++ z := trimStart_append ha h.start
    have hend := trimStart_append (fun c hc => hz c (List.mem_reverse.1 hc)) h.reverse.start
    rw [trim, hstart, trimEnd, List.reverse_append]
    exact (congrArg List.reverse hend).trans (List.reverse_reverse _)

/-- A text is what trimming leaves of it with white space around. -/
theorem exists_trim (cs : List Char) :
    ∃ a z, (∀ c ∈ a, isBlank c = true) ∧ (∀ c ∈ z, isBlank c = true) ∧ cs = a ++ (trim cs ++ z) := by
  have hblank : ∀ cs : List Char, ∀ c ∈ cs.takeWhile isBlank, isBlank c = true :=
    fun _ c hc => List.mem_takeWhile_imp hc
  refine ⟨cs.takeWhile isBlank, ((trimStart cs).reverse.takeWhile isBlank).reverse, hblank cs,
    fun c hc => hblank _ c (List.mem_reverse.1 hc), ?_⟩
  have hend : trim cs ++ ((trimStart cs).reverse.takeWhile isBlank).reverse = trimStart cs := by
    rw [trim, trimEnd, ← List.reverse_append, List.takeWhile_append_dropWhile, List.reverse_reverse]
  rw [hend]
  exact List.takeWhile_append_dropWhile.symm

theorem trimStart_head (cs : List Char) : ∀ c, (trimStart cs).head? = some c → isBlank c = false := by
  intro c hc
  have hnot := List.head?_dropWhile_not isBlank cs
  rw [show (cs.dropWhile isBlank).head? = some c from hc] at hnot
  simpa using hnot

theorem trimmed_trim (cs : List Char) : Trimmed (trim cs) where
  start c hc := by
    -- the end is taken off what starts with no white space already
    obtain ⟨rest, hrest⟩ : ∃ rest, trimStart cs = c :: rest := by
      have hprefix : trim cs <+: trimStart cs := by
        rw [trim, trimEnd, ← List.reverse_suffix, List.reverse_reverse]
        exact List.dropWhile_suffix _
      obtain ⟨more, hmore⟩ := hprefix
      obtain ⟨rest, hrest⟩ := List.head?_eq_some_iff.1 hc
      exact ⟨rest ++ more, by rw [← hmore, hrest]; rfl⟩
    exact trimStart_head cs c (by rw [hrest]; rfl)
  finish c hc := by
    rw [trim, trimEnd, List.getLast?_reverse] at hc
    exact trimStart_head (trimStart cs).reverse c hc

theorem trim_eq_nil_iff {cs : List Char} : trim cs = [] ↔ ∀ c ∈ cs, isBlank c = true := by
  constructor
  · intro h
    obtain ⟨a, z, ha, hz, heq⟩ := exists_trim cs
    rw [h, List.nil_append] at heq
    rw [heq]
    exact fun c hc => (List.mem_append.1 hc).elim (ha c) (hz c)
  · intro h
    have htrim : trim (cs ++ ([] ++ [])) = [] := trim_append h ⟨nofun, nofun⟩ nofun
    rwa [List.append_nil, List.append_nil] at htrim

end CoveragePages.Text
