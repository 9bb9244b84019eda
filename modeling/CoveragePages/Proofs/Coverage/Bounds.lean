/-
Accepted limits as exact numbers: a pair is accepted just when it is two numbers within 0 to 100, the low
one below the high one. What is no number or infinite has no exact value, so it is never accepted; a
negative zero has the value zero.
-/
import CoveragePages.Proofs.Coverage.Classes
import Mathlib.Tactic.Linarith

namespace CoveragePages

namespace Binary64

/-! ## Order of exact values -/

/-- The exact size of the number with a rank. -/
def size (rank : Nat) : ℚ := units rank / unitsPerOne

theorem size_strictMono : StrictMono size := by
  intro a b h
  have hunits : (units a : ℚ) < units b := by exact_mod_cast units_strictMono h
  exact div_lt_div_of_pos_right hunits (by exact_mod_cast unitsPerOne_pos)

theorem size_zero : size 0 = 0 := by
  rw [size, show units 0 = 0 by decide, Nat.cast_zero, zero_div]

theorem size_nonneg (rank : Nat) : 0 ≤ size rank := by
  rw [← size_zero]
  exact size_strictMono.monotone (Nat.zero_le rank)

theorem size_le_neg {a b : Nat} : size a ≤ -size b ↔ a = 0 ∧ b = 0 := by
  constructor
  · intro h
    have ha := size_nonneg a
    have hb := size_nonneg b
    exact ⟨size_strictMono.injective (by rw [size_zero]; linarith),
      size_strictMono.injective (by rw [size_zero]; linarith)⟩
  · rintro ⟨rfl, rfl⟩
    rw [size_zero, neg_zero]

theorem toRat?_eq_some {x : Binary64} {q : ℚ} (h : x.toRat? = some q) :
    ∃ negative rank hle, x = ranked negative rank hle ∧ q = (if negative then -1 else 1) * size rank := by
  cases x with
  | nan => cases h
  | ranked negative rank hle =>
    simp only [toRat?] at h
    split at h
    · cases h
    · exact ⟨negative, rank, hle, rfl, (Option.some.inj h).symm⟩

/-- Finite numbers are ordered as their exact values. -/
theorem le_iff_toRat? {x y : Binary64} {p q : ℚ} (hx : x.toRat? = some p) (hy : y.toRat? = some q) :
    x ≤ y ↔ p ≤ q := by
  obtain ⟨s, a, ha, rfl, rfl⟩ := toRat?_eq_some hx
  obtain ⟨t, b, hb, rfl, rfl⟩ := toRat?_eq_some hy
  show decide (place s a ≤ place t b) = true ↔ _
  rw [decide_eq_true_eq]
  cases s <;> cases t <;> simp only [place, Bool.false_eq_true, if_true, if_false, one_mul, neg_one_mul]
  · rw [size_strictMono.le_iff_le]
    omega
  · rw [size_le_neg]
    omega
  · exact iff_of_true (by omega) ((neg_nonpos.2 (size_nonneg a)).trans (size_nonneg b))
  · rw [neg_le_neg_iff, neg_le_neg_iff, size_strictMono.le_iff_le, Int.ofNat_le]

theorem toRat?_ofNat {n : Nat} (h : n < 2 * blockSize) : (ofNat n).toRat? = some (n : ℚ) := by
  have hsize : n ≤ UInt64.size := h.le.trans (by decide)
  have hunits : (units (countRank n) : ℚ) = n * unitsPerOne := by exact_mod_cast units_countRank h
  have hpos : (unitsPerOne : ℚ) ≠ 0 := by exact_mod_cast unitsPerOne_pos.ne'
  rw [ofNat_eq_ofRank, toRat?_ofRank (countRank_lt hsize), hunits, mul_div_cancel_right₀ _ hpos]

theorem ne_infinityRank_of_le {negative : Bool} {rank : Nat} {hle : rank ≤ infinityRank}
    (hlow : ofNat 0 ≤ ranked negative rank hle) (hhigh : ranked negative rank hle ≤ ofNat 100) :
    rank ≠ infinityRank := by
  have hhundred : countRank 100 < infinityRank := countRank_lt (by decide)
  have hlow' : place false (min (countRank 0) infinityRank) ≤ place negative rank := of_decide_eq_true hlow
  have hhigh' : place negative rank ≤ place false (min (countRank 100) infinityRank) := of_decide_eq_true hhigh
  cases negative <;> simp only [place, Bool.false_eq_true, if_true, if_false] at hlow' hhigh' <;> omega

end Binary64

open Binary64

/-! ## Limits -/

theorem isPercentage_iff_toRat? {x : Binary64} :
    Limits.isPercentage x = true ↔ ∃ q, x.toRat? = some q ∧ 0 ≤ q ∧ q ≤ 100 := by
  have hzero : (Binary64.ofNat 0).toRat? = some ((0 : ℕ) : ℚ) := toRat?_ofNat (by decide)
  have hhundred : (Binary64.ofNat 100).toRat? = some ((100 : ℕ) : ℚ) := toRat?_ofNat (by decide)
  rw [isPercentage_iff]
  constructor
  · rintro ⟨hlow, hhigh⟩
    obtain ⟨q, hq⟩ : ∃ q, x.toRat? = some q := by
      cases x with
      | nan => cases hhigh
      | ranked negative rank hle => exact ⟨_, by rw [toRat?, if_neg (ne_infinityRank_of_le hlow hhigh)]⟩
    refine ⟨q, hq, ?_, ?_⟩
    · exact_mod_cast (le_iff_toRat? hzero hq).1 hlow
    · exact_mod_cast (le_iff_toRat? hq hhundred).1 hhigh
  · rintro ⟨q, hq, hlow, hhigh⟩
    exact ⟨(le_iff_toRat? hzero hq).2 (by exact_mod_cast hlow), (le_iff_toRat? hq hhundred).2 (by exact_mod_cast hhigh)⟩

/-- Two percentages, the low limit below the high one. What is no number has no exact value. -/
def Limits.InBounds (limits : Limits) : Prop :=
  ∃ low high, limits.low.toRat? = some low ∧ limits.high.toRat? = some high ∧ 0 ≤ low ∧ low < high ∧ high ≤ 100

theorem Limits.check_ok_iff_inBounds {limits : Limits} : limits.check = .ok () ↔ limits.InBounds := by
  rw [check_ok_iff, isPercentage_iff_toRat?, isPercentage_iff_toRat?]
  constructor
  · rintro ⟨⟨low, hlow, hnonneg, -⟩, ⟨high, hhigh, -, hle⟩, hbelow⟩
    rw [le_iff_toRat? hhigh hlow, not_le] at hbelow
    exact ⟨low, high, hlow, hhigh, hnonneg, hbelow, hle⟩
  · rintro ⟨low, high, hlow, hhigh, hnonneg, hbelow, hle⟩
    refine ⟨⟨low, hlow, hnonneg, hbelow.le.trans hle⟩, ⟨high, hhigh, hnonneg.trans hbelow.le, hle⟩, ?_⟩
    rw [le_iff_toRat? hhigh hlow, not_le]
    exact hbelow

end CoveragePages
