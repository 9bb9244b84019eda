/-
Breaking a text at a pattern: it is broken exactly where the pattern stands first, and not at all where
the pattern does not stand.
-/
import CoveragePages.Text.Search
import Mathlib.Data.List.Infix

namespace CoveragePages.Text

variable {pattern cs : List Char}

theorem breakOn?_eq_none_iff (hp : pattern ≠ []) : breakOn? pattern cs = none ↔ ¬ pattern <:+: cs := by
  induction cs with
  | nil => simp [breakOn?, hp]
  | cons c cs ih =>
    rw [breakOn?, List.infix_cons_iff]
    split
    · rename_i h
      simp [List.isPrefixOf_iff_prefix.1 h]
    · rename_i h
      simp [ih, mt List.isPrefixOf_iff_prefix.2 h]

theorem dropLast_prefix_append (pattern before after : List Char) :
    before ++ pattern.dropLast <+: before ++ (pattern ++ after) :=
  (List.prefix_append_right_inj before).2 ((List.dropLast_prefix pattern).trans (List.prefix_append pattern after))

/-- A pattern that stands at the start of a text and later stands twice, however the two overlap. -/
theorem infix_of_overlap {c : Char} {before after : List Char} (h : pattern <+: c :: (before ++ (pattern ++ after))) :
    pattern <:+: c :: (before ++ pattern.dropLast) := by
  refine (List.prefix_of_prefix_length_le h (dropLast_prefix_append pattern (c :: before) after) ?_).isInfix
  simp only [List.cons_append, List.length_cons, List.length_append, List.length_dropLast]
  omega

/-- The place where a text is broken is the first one: up to it the pattern does not stand, not even so that it
overlaps that place. -/
theorem breakOn?_eq_some_iff (hp : pattern ≠ []) {before after : List Char} :
    breakOn? pattern cs = some (before, after) ↔
      cs = before ++ (pattern ++ after) ∧ ¬ pattern <:+: before ++ pattern.dropLast := by
  have hshort : ¬ pattern <:+: pattern.dropLast := by
    intro h
    have hlength := h.length_le
    have hpos := List.length_pos_iff.2 hp
    rw [List.length_dropLast] at hlength
    omega
  induction cs generalizing before with
  | nil => simp [breakOn?, hp]
  | cons c cs ih =>
    rw [breakOn?]
    split
    · rename_i h
      have hprefix := List.isPrefixOf_iff_prefix.1 h
      constructor
      · rintro ⟨⟩
        exact ⟨(List.prefix_iff_eq_append.1 hprefix).symm, hshort⟩
      · rintro ⟨heq, hfirst⟩
        cases before with
        | nil => rw [heq, List.nil_append, List.drop_left]
        | cons d before =>
          rw [heq] at hprefix
          exact absurd (infix_of_overlap hprefix) hfirst
    · rename_i h
      have hnot := mt List.isPrefixOf_iff_prefix.2 h
      constructor
      · intro hmap
        obtain ⟨⟨before', after'⟩, hrest, heq⟩ := Option.map_eq_some_iff.1 hmap
        cases heq
        obtain ⟨rfl, hfirst⟩ := ih.1 hrest
        refine ⟨rfl, fun hinfix => ?_⟩
        rcases List.infix_cons_iff.1 hinfix with hstart | hlater
        · exact hnot (hstart.trans (dropLast_prefix_append pattern (c :: before') after))
        · exact hfirst hlater
      · rintro ⟨heq, hfirst⟩
        cases before with
        | nil => exact absurd ⟨after, heq.symm⟩ hnot
        | cons d before =>
          cases heq
          rw [ih.2 ⟨rfl, fun hlater => hfirst (hlater.trans (List.suffix_cons c _).isInfix)⟩]
          rfl

/-- Where a doubled character stands in a text with one more character at its end. -/
theorem double_infix_concat {x y : Char} :
    [x, x] <:+: cs ++ [y] ↔ [x, x] <:+: cs ∨ (cs.getLast? = some x ∧ y = x) := by
  rw [List.infix_concat_iff, or_comm]
  refine or_congr_right ⟨?_, ?_⟩
  · rintro ⟨t, ht⟩
    have hsplit : t ++ [x] ++ [x] = cs ++ [y] := by rw [← ht, List.append_assoc]; rfl
    obtain ⟨rfl, hxy⟩ := List.append_inj' hsplit rfl
    cases hxy
    exact ⟨List.getLast?_concat, rfl⟩
  · rintro ⟨hlast, rfl⟩
    obtain ⟨t, rfl⟩ := List.getLast?_eq_some_iff.1 hlast
    exact ⟨t, by rw [List.append_assoc]; rfl⟩

end CoveragePages.Text
