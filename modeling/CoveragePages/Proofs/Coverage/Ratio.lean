/-
Coverage ratios as ranks: a ratio of counts is rounded as each count is taken into binary64, as they
are divided and as the quotient is taken to percent. Each step is monotone, stays within the finite
numbers, and is exact for no lines and for all lines.
-/
import CoveragePages.Coverage.Classes
import CoveragePages.Proofs.Binary64.Rounding

namespace CoveragePages

open Binary64

/-! ## Counts -/

/-- The rank of a count of lines. -/
def countRank (n : Nat) : Nat := nearestRank (n * unitsPerOne) 1

theorem ofNat_eq_ofRank (n : Nat) : ofNat n = ofRank false (countRank n) := rfl

theorem countRank_mono {m n : Nat} (h : m ≤ n) : countRank m ≤ countRank n :=
  nearestRank_mono_left Nat.one_pos (Nat.mul_le_mul_right _ h)

theorem block_le_infinity : 5 * blockSize * unitsPerOne ≤ units infinityRank := by decide +kernel

/-- A count that fits a block is taken into binary64 as it is. -/
theorem units_countRank {n : Nat} (h : n < 2 * blockSize) : units (countRank n) = n * unitsPerOne := by
  obtain ⟨rank, hrank⟩ : ∃ rank, units rank = n * unitsPerOne := by
    obtain ⟨e, he⟩ := exists_unitsPerOne
    rw [he]
    exact exists_units (Nat.dvd_mul_left _ _) (Nat.mul_lt_mul_of_pos_right h (by positivity))
  have hle : rank ≤ infinityRank := by
    rw [← units_strictMono.le_iff_le, hrank]
    exact (Nat.mul_le_mul_right _ (h.le.trans (by decide))).trans block_le_infinity
  have hexact := nearestRank_units Nat.one_pos hle
  rw [Nat.mul_one, hrank] at hexact
  rw [countRank, hexact, hrank]

theorem countRank_zero : countRank 0 = 0 :=
  units_strictMono.injective ((units_countRank (by decide)).trans ((Nat.zero_mul _).trans rfl))

theorem units_countRank_one : units (countRank 1) = unitsPerOne := (units_countRank (by decide)).trans (Nat.one_mul _)

theorem countRank_lt {n : Nat} (h : n ≤ UInt64.size) : countRank n < infinityRank :=
  (countRank_mono h).trans_lt (by decide +kernel)

theorem unitsPerOne_le_units {n : Nat} (h : 0 < n) : unitsPerOne ≤ units (countRank n) := by
  rw [← units_countRank_one]
  exact units_strictMono.monotone (countRank_mono h)

theorem units_countRank_pos {n : Nat} (h : 0 < n) : 0 < units (countRank n) :=
  unitsPerOne_pos.trans_le (unitsPerOne_le_units h)

theorem countRank_ne_zero {n : Nat} (h : 0 < n) : countRank n ≠ 0 := by
  intro hzero
  have hunits := units_countRank_pos h
  rw [hzero] at hunits
  exact absurd hunits (by decide)

/-! ## Ratios -/

/-- The rank of one count divided by another. -/
def quotientRank (covered instrumented : Nat) : Nat :=
  nearestRank (units (countRank covered) * unitsPerOne) (units (countRank instrumented))

/-- The rank of a ratio of counts, in percent. -/
def ratioRank (covered instrumented : Nat) : Nat :=
  nearestRank (units (quotientRank covered instrumented) * units (countRank 100)) unitsPerOne

section

variable {covered covered' instrumented : Nat}

theorem quotientRank_mono (hpos : 0 < instrumented) (h : covered ≤ covered') :
    quotientRank covered instrumented ≤ quotientRank covered' instrumented :=
  nearestRank_mono_left (units_countRank_pos hpos)
    (Nat.mul_le_mul_right _ (units_strictMono.monotone (countRank_mono h)))

/-- A count of lines is no more after it is divided by another. -/
theorem quotientRank_le (hpos : 0 < instrumented) (hcovered : covered ≤ UInt64.size) :
    quotientRank covered instrumented ≤ countRank covered := by
  calc quotientRank covered instrumented
      ≤ nearestRank (units (countRank covered) * unitsPerOne) unitsPerOne :=
        nearestRank_mono_right unitsPerOne_pos (unitsPerOne_le_units hpos)
    _ = countRank covered := nearestRank_units unitsPerOne_pos (countRank_lt hcovered).le

theorem ratioRank_mono (hpos : 0 < instrumented) (h : covered ≤ covered') :
    ratioRank covered instrumented ≤ ratioRank covered' instrumented :=
  nearestRank_mono_left unitsPerOne_pos
    (Nat.mul_le_mul_right _ (units_strictMono.monotone (quotientRank_mono hpos h)))

/-- Even the most lines that are counted, divided by a single one, are finite in percent. -/
theorem ratioRank_lt (hpos : 0 < instrumented) (hcovered : covered ≤ UInt64.size) :
    ratioRank covered instrumented < infinityRank := by
  have hquotient := (quotientRank_le hpos hcovered).trans (countRank_mono hcovered)
  calc ratioRank covered instrumented
      ≤ nearestRank (units (countRank UInt64.size) * units (countRank 100)) unitsPerOne :=
        nearestRank_mono_left unitsPerOne_pos (Nat.mul_le_mul_right _ (units_strictMono.monotone hquotient))
    _ < infinityRank := by decide +kernel

theorem ratioRank_zero (hpos : 0 < instrumented) : ratioRank 0 instrumented = 0 := by
  have hquotient := quotientRank_le hpos (Nat.zero_le UInt64.size)
  rw [countRank_zero, Nat.le_zero] at hquotient
  have hzero := nearestRank_units unitsPerOne_pos (Nat.zero_le infinityRank)
  rw [show units 0 = 0 from rfl, Nat.zero_mul] at hzero
  rw [ratioRank, hquotient, show units 0 = 0 from rfl, Nat.zero_mul, hzero]

/-- All of the instrumented lines are exactly a hundred percent. -/
theorem ratioRank_self (hpos : 0 < instrumented) : ratioRank instrumented instrumented = countRank 100 := by
  have hquotient : quotientRank instrumented instrumented = countRank 1 := by
    rw [quotientRank, Nat.mul_comm, ← units_countRank_one]
    exact nearestRank_units (units_countRank_pos hpos) (countRank_lt (by decide)).le
  rw [ratioRank, hquotient, units_countRank_one, Nat.mul_comm]
  exact nearestRank_units unitsPerOne_pos (countRank_lt (by decide)).le

end

/-- The ratio of some lines to at least one line is finite. -/
theorem coverageRatio_eq {covered instrumented : UInt64} (h : 0 < instrumented) :
    coverageRatio covered instrumented = ofRank false (ratioRank covered.toNat instrumented.toNat) := by
  have hpos : 0 < instrumented.toNat := UInt64.lt_iff_toNat_lt.1 h
  have hcovered := countRank_lt covered.toNat_lt_size.le
  have hinstrumented := countRank_lt instrumented.toNat_lt_size.le
  have hquotient := (quotientRank_le hpos covered.toNat_lt_size.le).trans_lt hcovered
  rw [coverageRatio, ofNat_eq_ofRank, ofNat_eq_ofRank, div_ofRank hcovered hinstrumented (countRank_ne_zero hpos)]
  exact mul_ofRank hquotient (countRank_lt (by decide))

/-- Nothing of nothing is no number. -/
theorem coverageRatio_zero_zero : coverageRatio 0 0 = nan := by
  rw [coverageRatio, show (0 : UInt64).toNat = 0 from rfl, ofNat_eq_ofRank, countRank_zero]
  rfl

/-- Something of nothing is infinite. -/
theorem coverageRatio_zero {covered : UInt64} (h : 0 < covered) : coverageRatio covered 0 = infinity false := by
  have hpos : 0 < covered.toNat := UInt64.lt_iff_toNat_lt.1 h
  rw [coverageRatio, show (0 : UInt64).toNat = 0 from rfl, ofNat_eq_ofRank, ofNat_eq_ofRank, ofNat_eq_ofRank,
    countRank_zero, div_zero_ofRank (countRank_lt covered.toNat_lt_size.le) (countRank_ne_zero hpos)]
  exact infinity_mul_ofRank (countRank_lt (by decide)) (countRank_ne_zero (by decide))

end CoveragePages
