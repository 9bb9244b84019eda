/-
The classes of coverage follow the counts: more covered lines never lower the class, and limits that
are accepted leave no coverage low and full coverage high.
-/
import CoveragePages.Proofs.Coverage.Ratio

namespace CoveragePages

open Binary64

/-! ## Accepted limits -/

theorem isPercentage_iff {x : Binary64} : Limits.isPercentage x = true ↔ ofNat 0 ≤ x ∧ x ≤ ofNat 100 := by
  simp only [Limits.isPercentage, Bool.and_eq_true, decide_eq_true_eq]

theorem check_ok_iff {limits : Limits} : limits.check = .ok () ↔
    Limits.isPercentage limits.low = true ∧ Limits.isPercentage limits.high = true ∧ ¬ limits.high ≤ limits.low := by
  unfold Limits.check
  cases Limits.isPercentage limits.low <;> cases Limits.isPercentage limits.high <;>
    by_cases h : limits.high ≤ limits.low <;> simp [h]

/-! ## Classes -/

namespace CoverageClass

/-- The place of a class in the order of the classes. -/
def level : CoverageClass → Nat
  | low => 0
  | medium => 1
  | high => 2

theorem level_le_high (c : CoverageClass) : c.level ≤ high.level := by
  cases c <;> decide

theorem ofRatio_mono {ratio ratio' : Binary64} (h : ratio ≤ ratio') (limits : Limits) :
    (ofRatio ratio limits).level ≤ (ofRatio ratio' limits).level := by
  unfold ofRatio
  by_cases hlow : ratio' ≤ limits.low
  · rw [if_pos hlow, if_pos (Binary64.le_trans h hlow)]
  rw [if_neg hlow]
  by_cases hhigh : limits.high ≤ ratio
  · rw [if_pos (Binary64.le_trans hhigh h)]
    exact level_le_high _
  · rw [if_neg hhigh]
    split <;> split <;> decide

theorem ofRatio_nan (limits : Limits) : ofRatio nan limits = medium := by
  have hhigh : ¬ limits.high ≤ nan := by cases limits.high <;> nofun
  rw [ofRatio, if_neg (by nofun), if_neg hhigh]

/-- With nothing instrumented the ratio is no number or infinite, and neither is low where the low limit
is finite. -/
theorem ofCounts_mono_of_zero {limits : Limits} (hlow : limits.low.isFinite = true) {covered covered' : UInt64}
    (h : covered ≤ covered') : (ofCounts covered 0 limits).level ≤ (ofCounts covered' 0 limits).level := by
  unfold ofCounts
  by_cases hcovered' : covered' = 0
  · subst hcovered'
    rw [UInt64.le_zero_iff.1 h]
  rw [coverageRatio_zero (UInt64.pos_iff_ne_zero.2 hcovered')]
  by_cases hcovered : covered = 0
  · rw [hcovered, coverageRatio_zero_zero, ofRatio_nan, ofRatio, if_neg (not_infinity_le hlow)]
    split
    · exact level_le_high medium
    · exact le_rfl
  · rw [coverageRatio_zero (UInt64.pos_iff_ne_zero.2 hcovered)]

theorem ofCounts_mono {limits : Limits} (hlow : limits.low.isFinite = true) (instrumented : UInt64)
    {covered covered' : UInt64} (h : covered ≤ covered') :
    (ofCounts covered instrumented limits).level ≤ (ofCounts covered' instrumented limits).level := by
  by_cases hzero : instrumented = 0
  · rw [hzero]
    exact ofCounts_mono_of_zero hlow h
  · have hpos : 0 < instrumented := UInt64.pos_iff_ne_zero.2 hzero
    unfold ofCounts
    rw [coverageRatio_eq hpos, coverageRatio_eq hpos]
    have hrank := ratioRank_mono (UInt64.lt_iff_toNat_lt.1 hpos) (UInt64.le_iff_toNat_le.1 h)
    exact ofRatio_mono (ofRank_mono hrank) limits

theorem ofCounts_zero {limits : Limits} (h : limits.check = .ok ()) {instrumented : UInt64} (hpos : 0 < instrumented) :
    ofCounts 0 instrumented limits = low := by
  have hratio : coverageRatio 0 instrumented = Binary64.ofNat 0 := by
    rw [coverageRatio_eq hpos, ofNat_eq_ofRank, countRank_zero]
    exact congrArg (ofRank false) (ratioRank_zero (UInt64.lt_iff_toNat_lt.1 hpos))
  obtain ⟨hlow, -⟩ := check_ok_iff.1 h
  rw [ofCounts, hratio, ofRatio, if_pos (isPercentage_iff.1 hlow).1]

theorem ofCounts_self {limits : Limits} (h : limits.check = .ok ()) {instrumented : UInt64} (hpos : 0 < instrumented) :
    ofCounts instrumented instrumented limits = high := by
  have hratio : coverageRatio instrumented instrumented = Binary64.ofNat 100 := by
    rw [coverageRatio_eq hpos, ofNat_eq_ofRank]
    exact congrArg (ofRank false) (ratioRank_self (UInt64.lt_iff_toNat_lt.1 hpos))
  obtain ⟨-, hpercentage, hbelow⟩ := check_ok_iff.1 h
  have hhigh := (isPercentage_iff.1 hpercentage).2
  rw [ofCounts, hratio, ofRatio, if_neg fun hlow => hbelow (Binary64.le_trans hhigh hlow), if_pos hhigh]

/-- The class does not fall when more lines are covered, whatever the limits and also where nothing is
instrumented. Under accepted limits no coverage is low and full coverage is high. -/
theorem classes_follow_coverage (limits : Limits) :
    (limits.low.isFinite = true → ∀ instrumented covered covered' : UInt64, covered ≤ covered' →
      (ofCounts covered instrumented limits).level ≤ (ofCounts covered' instrumented limits).level) ∧
    (limits.check = .ok () → ∀ instrumented : UInt64, 0 < instrumented →
      ofCounts 0 instrumented limits = low ∧ ofCounts instrumented instrumented limits = high) :=
  ⟨fun hlow instrumented _ _ h => ofCounts_mono hlow instrumented h,
    fun h _ hpos => ⟨ofCounts_zero h hpos, ofCounts_self h hpos⟩⟩

theorem classes_follow_coverage_sample :
    let crossed : Limits := ⟨Binary64.ofNat 75, Binary64.ofNat 25⟩
    (crossed.low.isFinite = true ∧ (9007199254740993 : UInt64) ≤ 9007199254740995 ∧
      (ofCounts 9007199254740993 0 crossed).level ≤ (ofCounts 9007199254740995 0 crossed).level) ∧
    Limits.standard.check = .ok () ∧ (0 : UInt64) < 18446744073709551615 ∧
      ofCounts 0 18446744073709551615 Limits.standard = low ∧
      ofCounts 18446744073709551615 18446744073709551615 Limits.standard = high := by
  intro crossed
  have hfinite : crossed.low.isFinite = true := by
    show (Binary64.ofNat 75).isFinite = true
    rw [ofNat_eq_ofRank, isFinite, toRat?_ofRank (countRank_lt (by decide))]
    rfl
  have hcheck : Limits.standard.check = .ok () := check_ok_iff.2 (by decide +kernel)
  exact ⟨⟨hfinite, by decide, (classes_follow_coverage crossed).1 hfinite 0 _ _ (by decide)⟩, hcheck, by decide,
    (classes_follow_coverage Limits.standard).2 hcheck _ (by decide)⟩

end CoverageClass

end CoveragePages
