/-
How often a pattern stands in a text. Where a text ends with no start of the pattern, what follows it
makes no difference: the pattern stands in both parts as often as in the whole.
-/
import Mathlib.Data.List.Infix

namespace CoveragePages.Text

/-- How often a pattern stands in a text. -/
def occurrences (pattern : List Char) : List Char → Nat
  | [] => 0
  | c :: cs => (if pattern.isPrefixOf (c :: cs) then 1 else 0) + occurrences pattern cs

/-- Whether no end of a text is the start of a pattern, other than the pattern itself. -/
def isApart (pattern : List Char) : List Char → Bool
  | [] => true
  | c :: cs => (!(c :: cs).isPrefixOf pattern || c :: cs == pattern) && isApart pattern cs

variable {pattern : List Char}

theorem occurrences_append {a : List Char} (h : isApart pattern a = true) (b : List Char) :
    occurrences pattern (a ++ b) = occurrences pattern a + occurrences pattern b := by
  induction a with
  | nil => simp [occurrences]
  | cons c cs ih =>
    obtain ⟨hhead, htail⟩ := Bool.and_eq_true_iff.1 h
    have hprefix : pattern.isPrefixOf (c :: cs ++ b) = pattern.isPrefixOf (c :: cs) := by
      rw [Bool.eq_iff_iff, List.isPrefixOf_iff_prefix, List.isPrefixOf_iff_prefix]
      constructor
      · intro hp
        rcases List.prefix_or_prefix_of_prefix hp (List.prefix_append (c :: cs) b) with hp | hp
        · exact hp
        · have heq : c :: cs = pattern := by simpa [List.isPrefixOf_iff_prefix.2 hp] using hhead
          rw [heq]
      · exact fun hp => hp.trans (List.prefix_append _ b)
    rw [List.cons_append] at hprefix ⊢
    rw [occurrences, occurrences, hprefix, ih htail, Nat.add_assoc]

/-- A text without the first character of a pattern has nothing of it. -/
theorem apart_of_not_mem {d : Char} (ds : List Char) {a : List Char} (h : d ∉ a) :
    isApart (d :: ds) a = true ∧ occurrences (d :: ds) a = 0 := by
  induction a with
  | nil => exact ⟨rfl, rfl⟩
  | cons c cs ih =>
    obtain ⟨hne, hcs⟩ := not_or.1 (mt List.mem_cons.2 h)
    obtain ⟨hapart, hzero⟩ := ih hcs
    have hprefix : (c :: cs).isPrefixOf (d :: ds) = false := by simp [List.isPrefixOf, Ne.symm hne]
    simp [isApart, occurrences, hapart, hzero, hne, hprefix]

theorem occurrences_eq_zero_iff (hp : pattern ≠ []) {cs : List Char} :
    occurrences pattern cs = 0 ↔ ¬ pattern <:+: cs := by
  induction cs with
  | nil => simp [occurrences, hp]
  | cons c cs ih => simp [occurrences, List.infix_cons_iff, ih]

end CoveragePages.Text
