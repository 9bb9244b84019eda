/-
Percentages with one digit after the point. A number halfway between two tenths is an odd number of
quarters; it is found by its fourfold, which is exact, and displayed by its tenfold, which is exact up
to 53 bits only. Anything else is rounded half to even, which is not off by a half there. So a
percentage is displayed as the nearest tenths, the greater ones of two, but for ties whose tenfold is
rounded.
-/
import CoveragePages.Proofs.Coverage.Ratio

namespace CoveragePages

open Binary64 Decimal

/-! ## Nearest tenths -/

/-- Whether `n` tenths are nearest to a number, and the greater ones of two that are equally near. -/
def NearestTenths (n : ℤ) (x : ℚ) : Prop :=
  ∀ m : ℤ, |x - n / 10| ≤ |x - m / 10| ∧ (|x - m / 10| = |x - n / 10| → m ≤ n)

theorem NearestTenths.unique {m n : ℤ} {x : ℚ} (hm : NearestTenths m x) (hn : NearestTenths n x) : m = n := by
  have hsame : |x - m / 10| = |x - n / 10| := le_antisymm (hm n).1 (hn m).1
  exact le_antisymm ((hn m).2 hsame) ((hm n).2 hsame.symm)

theorem nearestTenths_of {n : ℤ} {x : ℚ} (hlow : 10 * x - 1 / 2 < n) (hhigh : n ≤ 10 * x + 1 / 2) :
    NearestTenths n x := by
  intro m
  have hn : |x - n / 10| ≤ 1 / 20 := abs_le.2 ⟨by linarith, by linarith⟩
  rcases lt_trichotomy m n with hlt | rfl | hgt
  · have hstep : (m : ℚ) + 1 ≤ n := by exact_mod_cast hlt
    have hm := le_abs_self (x - m / 10)
    exact ⟨by linarith, fun _ => hlt.le⟩
  · exact ⟨le_rfl, fun _ => le_rfl⟩
  · have hstep : (n : ℚ) + 1 ≤ m := by exact_mod_cast hgt
    have hm := neg_le_abs (x - m / 10)
    have hless : |x - n / 10| < |x - m / 10| := abs_lt.2 ⟨by linarith, by linarith⟩
    exact ⟨hless.le, fun h => absurd h hless.ne'⟩

/-! ## Ties -/

/-- Whether the number of a rank is halfway between two tenths: an odd number of quarters. -/
def IsTie (rank quarters : Nat) : Prop := quarters % 2 = 1 ∧ units rank * 4 = quarters * unitsPerOne

section

variable {rank quarters : Nat}

/-- The quarters of a tie are few enough to be counted exactly. -/
theorem IsTie.lt (h : IsTie rank quarters) : quarters < 2 * blockSize := by
  obtain ⟨hodd, hsize⟩ := h
  obtain ⟨shift, t, rfl, hlow, ht⟩ := exists_scaled rank
  obtain ⟨e, he⟩ := exists_unitsPerOne
  rw [units_scaled hlow ht.le, he, show t * 2 ^ shift * 4 = t * 2 ^ (shift + 2) by ring] at hsize
  rcases Nat.lt_or_ge (e + 1) (shift + 2) with hwide | hnarrow
  · -- with a spacing of half or more, the quarters come in pairs
    obtain ⟨k, hk⟩ : ∃ k, shift + 2 = k + 1 + (e + 1) := ⟨shift - e, by omega⟩
    rw [hk, pow_add, ← Nat.mul_assoc] at hsize
    have hquarters := Nat.eq_of_mul_eq_mul_right (by positivity) hsize
    rw [← hquarters, pow_succ, ← Nat.mul_assoc, Nat.mul_mod_left] at hodd
    cases hodd
  · have hle : quarters * 2 ^ (e + 1) ≤ t * 2 ^ (e + 1) := by
      rw [← hsize]
      exact Nat.mul_le_mul_left t (Nat.pow_le_pow_right two_pos hnarrow)
    exact (Nat.le_of_mul_le_mul_right hle (by positivity)).trans_lt ht

/-- Four times a number is exact, up to the infinities. -/
theorem mul_four (hrank : rank < infinityRank) :
    ∃ fourfold, units fourfold = units rank * 4 ∧ ofRank false rank * ofNat 4 = ofRank false fourfold := by
  obtain ⟨shift, t, rfl, hlow, ht⟩ := exists_scaled rank
  obtain ⟨fourfold, hfourfold⟩ : ∃ fourfold, units fourfold = t * 2 ^ (shift + 2) :=
    exists_units (Nat.dvd_mul_left _ t) (Nat.mul_lt_mul_of_pos_right ht (by positivity))
  have hfour : units fourfold = units (shift * blockSize + t) * 4 := by
    rw [hfourfold, units_scaled hlow ht.le]
    ring
  refine ⟨fourfold, hfour, ?_⟩
  rw [ofNat_eq_ofRank, mul_ofRank hrank (countRank_lt (by decide)), units_countRank (by decide), ← Nat.mul_assoc,
    ← hfour, nearestRank_eq, roundedRank_units unitsPerOne_pos]
  simp only [ofRank, min_assoc, min_self]
  rfl

theorem isOdd_ofRank (hrank : rank < infinityRank) :
    isOdd (ofRank false rank) = true ↔ ∃ n, n % 2 = 1 ∧ units rank = n * unitsPerOne := by
  rw [ofRank_eq hrank.le]
  simp only [isOdd, Bool.not_false, Bool.true_and, Bool.and_eq_true, bne_iff_ne, ne_eq, hrank.ne, not_false_eq_true,
    true_and, beq_iff_eq]
  constructor
  · rintro ⟨hwhole, hodd⟩
    exact ⟨_, hodd, (Nat.div_mul_cancel (Nat.dvd_of_mod_eq_zero hwhole)).symm⟩
  · rintro ⟨n, hodd, hsize⟩
    rw [hsize, Nat.mul_mod_left, Nat.mul_div_cancel _ unitsPerOne_pos]
    exact ⟨rfl, hodd⟩

theorem isOdd_infinity {rank : Nat} (h : infinityRank ≤ rank) : isOdd (ofRank false rank) = false := by
  simp [ofRank, isOdd, min_eq_right h]

/-- The test for ties finds just the ties. -/
theorem isOdd_iff (hrank : rank < infinityRank) :
    isOdd (ofRank false rank * ofNat 4) = true ↔ ∃ quarters, IsTie rank quarters := by
  obtain ⟨fourfold, hfour, hmul⟩ := mul_four hrank
  rw [hmul]
  rcases Nat.lt_or_ge fourfold infinityRank with hlt | hge
  · rw [isOdd_ofRank hlt, hfour]
    rfl
  · rw [isOdd_infinity hge]
    refine ⟨nofun, ?_⟩
    rintro ⟨quarters, htie⟩
    -- a tie is far below the infinities
    have hsmall : units fourfold < units infinityRank := by
      rw [hfour, htie.2]
      calc quarters * unitsPerOne < 2 * blockSize * unitsPerOne := Nat.mul_lt_mul_of_pos_right htie.lt unitsPerOne_pos
        _ ≤ 5 * blockSize * unitsPerOne := Nat.mul_le_mul_right _ (by decide)
        _ ≤ units infinityRank := block_le_infinity
    exact absurd (units_strictMono.lt_iff_lt.1 hsmall) (Nat.not_lt.2 hge)

/-! ## The text of a tie -/

theorem ceiling_ofRank (h : rank ≤ infinityRank) :
    units rank ≤ ceiling (ofRank false rank) * unitsPerOne ∧
      ceiling (ofRank false rank) * unitsPerOne < units rank + unitsPerOne := by
  have hpos := unitsPerOne_pos
  rw [ofRank_eq h]
  simp only [ceiling]
  generalize unitsPerOne = one at *
  have hdiv := Nat.div_add_mod (units rank + (one - 1)) one
  have hmod := Nat.mod_lt (units rank + (one - 1)) hpos
  rw [Nat.mul_comm] at hdiv
  omega

/-- Ten times a tie is rounded to a rank, and is not infinite. -/
theorem IsTie.mul_ten (h : IsTie rank quarters) (hrank : rank < infinityRank) :
    roundedRank (units rank * 10 * unitsPerOne) unitsPerOne ≤ infinityRank ∧
      ofRank false rank * ofNat 10 = ofRank false (roundedRank (units rank * 10 * unitsPerOne) unitsPerOne) := by
  have hsize : units rank * 10 ≤ units infinityRank := by
    have hquarters : units rank * 4 ≤ 2 * blockSize * unitsPerOne := by
      rw [h.2]
      exact Nat.mul_le_mul_right _ h.lt.le
    have hmost := block_le_infinity
    linarith
  have hle : roundedRank (units rank * 10 * unitsPerOne) unitsPerOne ≤ infinityRank := by
    calc roundedRank (units rank * 10 * unitsPerOne) unitsPerOne
        ≤ roundedRank (units infinityRank * unitsPerOne) unitsPerOne :=
          roundedRank_mono_left unitsPerOne_pos (Nat.mul_le_mul_right _ hsize)
      _ = infinityRank := roundedRank_units unitsPerOne_pos infinityRank
  refine ⟨hle, ?_⟩
  rw [ofNat_eq_ofRank, mul_ofRank hrank (countRank_lt (by decide)), units_countRank (by decide), ← Nat.mul_assoc,
    nearestRank_eq, min_eq_left hle]
  rfl

/-- Ten times a tie, in halves of one. -/
theorem IsTie.ten_eq (h : IsTie rank quarters) {e : Nat} (he : unitsPerOne = 2 ^ (e + 1)) :
    units rank * 10 = 5 * quarters * 2 ^ e := by
  have hsize := h.2
  rw [he, pow_succ] at hsize
  linarith

/-- Ten times a tie with few quarters is exact, and its half is rounded up. -/
theorem IsTie.ceiling_narrow (h : IsTie rank quarters) (hrank : rank < infinityRank)
    (hnarrow : 5 * quarters < 2 * blockSize) :
    2 * ceiling (ofRank false rank * ofNat 10) = 5 * quarters + 1 := by
  obtain ⟨hle, hmul⟩ := h.mul_ten hrank
  obtain ⟨e, he⟩ := exists_unitsPerOne
  have hten := h.ten_eq he
  have hodd := h.1
  have hpos : 0 < 2 ^ e := by positivity
  obtain ⟨tenfold, htenfold⟩ : ∃ tenfold, units tenfold = units rank * 10 := by
    rw [hten]
    exact exists_units (Nat.dvd_mul_left _ _) (Nat.mul_lt_mul_of_pos_right hnarrow hpos)
  rw [← htenfold, roundedRank_units unitsPerOne_pos] at hmul hle
  obtain ⟨hlow, hhigh⟩ := ceiling_ofRank hle
  rw [hmul]
  generalize ceiling (ofRank false tenfold) = n at *
  rw [htenfold, hten, he, pow_succ] at hlow hhigh
  have hlow' : 5 * quarters ≤ 2 * n := by
    refine Nat.le_of_mul_le_mul_right (c := 2 ^ e) ?_ hpos
    linarith
  have hhigh' : 2 * n < 5 * quarters + 2 := by
    refine Nat.lt_of_mul_lt_mul_right (a := 2 ^ e) ?_
    linarith
  omega

/-- Ten times a tie is spaced by at most four. -/
theorem IsTie.shift_le (h : IsTie rank quarters) {e : Nat} (he : unitsPerOne = 2 ^ (e + 1)) :
    shiftOf (units rank * 10) ≤ e + 3 := by
  by_contra! hgt
  have hstart := le_shiftOf (units rank * 10) (by omega)
  have hsteps : blockSize * 2 ^ (e + 4) ≤ blockSize * 2 ^ shiftOf (units rank * 10) :=
    Nat.mul_le_mul_left _ (Nat.pow_le_pow_right two_pos hgt)
  have hmost : 5 * quarters * 2 ^ e < 10 * blockSize * 2 ^ e := by
    have hquarters := h.lt
    exact Nat.mul_lt_mul_of_pos_right (by omega) (by positivity)
  rw [h.ten_eq he] at hstart hsteps
  rw [show blockSize * 2 ^ (e + 4) = 16 * blockSize * 2 ^ e by ring] at hsteps
  have hgrows : 10 * blockSize * 2 ^ e ≤ 16 * blockSize * 2 ^ e := Nat.mul_le_mul_right _ (by decide)
  omega

/-- Ten times any tie is rounded to a whole number that is at most one and a half off. -/
theorem IsTie.ceiling_near (h : IsTie rank quarters) (hrank : rank < infinityRank) :
    2 * ceiling (ofRank false rank * ofNat 10) ≤ 5 * quarters + 3 ∧
      5 * quarters ≤ 2 * ceiling (ofRank false rank * ofNat 10) + 3 := by
  obtain ⟨hle, hmul⟩ := h.mul_ten hrank
  obtain ⟨e, he⟩ := exists_unitsPerOne
  obtain ⟨hbelow, habove⟩ := roundedRank_whole_near unitsPerOne_pos (units rank * 10)
  obtain ⟨hlow, hhigh⟩ := ceiling_ofRank hle
  have hspaced : 2 ^ shiftOf (units rank * 10) ∣ units (roundedRank (units rank * 10 * unitsPerOne) unitsPerOne) := by
    rw [units_roundedRank _ unitsPerOne_pos, Nat.mul_div_cancel _ unitsPerOne_pos]
    exact Nat.dvd_mul_left ..
  have hshift := h.shift_le he
  have hodd := h.1
  rw [hmul]
  rw [h.ten_eq he] at *
  generalize ceiling (ofRank false (roundedRank (5 * quarters * 2 ^ e * unitsPerOne) unitsPerOne)) = n at *
  generalize units (roundedRank (5 * quarters * 2 ^ e * unitsPerOne) unitsPerOne) = product at *
  generalize shiftOf (5 * quarters * 2 ^ e) = shift at *
  rw [he] at hlow hhigh
  have hpos : 0 < 2 ^ e := by positivity
  have hone : 2 ^ (e + 1) = 2 * 2 ^ e := by ring
  rcases Nat.lt_or_ge (e + 1) shift with hcoarse | hfine
  · -- the product is whole already, and its spacing is at most four
    have hspacing : 2 ^ shift ≤ 8 * 2 ^ e := by
      calc 2 ^ shift ≤ 2 ^ (e + 3) := Nat.pow_le_pow_right two_pos hshift
        _ = 8 * 2 ^ e := by ring
    obtain ⟨m, rfl⟩ := exists_eq_mul_left_of_dvd ((pow_dvd_pow 2 hcoarse.le).trans hspaced)
    have hm : m = n := by
      have hle : m ≤ n := Nat.le_of_mul_le_mul_right hlow (by positivity)
      have hlt : n < m + 1 := by
        refine Nat.lt_of_mul_lt_mul_right (a := 2 ^ (e + 1)) ?_
        linarith
      omega
    subst hm
    rw [hone] at hbelow habove
    have hup : 2 * m ≤ 5 * quarters + 4 := Nat.le_of_mul_le_mul_right (by linarith) hpos
    have hdown : 5 * quarters ≤ 2 * m + 4 := Nat.le_of_mul_le_mul_right (by linarith) hpos
    omega
  · have hspacing : 2 ^ shift ≤ 2 * 2 ^ e := hone ▸ Nat.pow_le_pow_right two_pos hfine
    rw [hone] at hlow hhigh
    have hup : 2 * n < 5 * quarters + 3 := Nat.lt_of_mul_lt_mul_right (a := 2 ^ e) (by linarith)
    have hdown : 5 * quarters ≤ 2 * n + 1 := Nat.le_of_mul_le_mul_right (by linarith) hpos
    omega

end

/-! ## The text of a percentage -/

/-- Whether a number is halfway between two tenths with more digits in its tenfold than are kept: an odd number
of quarters whose fivefold, the halves of the tenfold, does not fit a block. -/
def WideTie (x : ℚ) : Prop := ∃ quarters : ℕ, quarters % 2 = 1 ∧ x = quarters / 4 ∧ 2 * blockSize ≤ 5 * quarters

section

variable {rank quarters : Nat}

theorem IsTie.eq_div (h : IsTie rank quarters) : (units rank : ℚ) / unitsPerOne = quarters / 4 := by
  have hone : (unitsPerOne : ℚ) ≠ 0 := by exact_mod_cast unitsPerOne_pos.ne'
  rw [div_eq_div_iff hone four_ne_zero]
  exact_mod_cast h.2

/-- Where rounding to tenths is off by a half, the number is a tie. -/
theorem exists_isTie
    (h : |(roundHalfEven (units rank * 10) unitsPerOne : ℚ) - (units rank * 10 : ℕ) / unitsPerOne| = 1 / 2) :
    ∃ quarters, IsTie rank quarters := by
  have hone : (0 : ℚ) < unitsPerOne := by exact_mod_cast unitsPerOne_pos
  have hten : (0 : ℚ) ≤ (units rank * 10 : ℕ) / unitsPerOne := div_nonneg (Nat.cast_nonneg _) hone.le
  generalize roundHalfEven (units rank * 10) unitsPerOne = n at *
  obtain ⟨halves, hodd, hhalves⟩ :
      ∃ halves : ℕ, halves % 2 = 1 ∧ ((units rank * 10 : ℕ) : ℚ) / unitsPerOne = halves / 2 := by
    rcases (abs_eq (by norm_num)).1 h with h | h
    · obtain ⟨n, rfl⟩ : ∃ m, n = m + 1 := by
        refine Nat.exists_eq_succ_of_ne_zero ?_
        rintro rfl
        push_cast at h hten
        linarith
      exact ⟨2 * n + 1, by omega, by push_cast at *; linarith⟩
    · exact ⟨2 * n + 1, by omega, by push_cast at *; linarith⟩
  rw [div_eq_div_iff hone.ne' two_ne_zero] at hhalves
  have hhalves : units rank * 10 * 2 = halves * unitsPerOne := by exact_mod_cast hhalves
  obtain ⟨e, he⟩ := exists_unitsPerOne
  have hfive : 5 ∣ halves := by
    have hcoprime : Nat.Coprime 5 unitsPerOne := he ▸ Nat.Coprime.pow_right _ (by decide)
    exact hcoprime.dvd_of_dvd_mul_right ⟨units rank * 4, by omega⟩
  obtain ⟨quarters, rfl⟩ := hfive
  exact ⟨quarters, by omega, by linarith⟩

/-- A ratio that is no tie is displayed to the nearest tenth. -/
theorem percentText_of_not_tie (hrank : rank < infinityRank) (h : ¬ ∃ quarters, IsTie rank quarters) :
    ∃ n : ℕ, percentText (ofRank false rank) = tenthsText n ++ "%" ∧
      |(n : ℚ) - 10 * (units rank / unitsPerOne)| < 1 / 2 := by
  refine ⟨roundHalfEven (units rank * 10) unitsPerOne, ?_, ?_⟩
  · rw [percentText, roundedUpOne, if_neg (mt (isOdd_iff hrank).1 h), ofRank_eq hrank.le]
    simp [fixedOne, Words.text, hrank.ne]
  · have hten : ((units rank * 10 : ℕ) : ℚ) / unitsPerOne = 10 * (units rank / unitsPerOne) := by
      push_cast
      ring
    rw [← hten]
    exact lt_of_le_of_ne (roundHalfEven_spec _ unitsPerOne_pos).1 (mt exists_isTie h)

/-- A tie is displayed as the least whole number of tenths above the rounded tenfold. -/
theorem IsTie.percentText_eq (h : IsTie rank quarters) (hrank : rank < infinityRank) :
    percentText (ofRank false rank) = tenthsText (ceiling (ofRank false rank * ofNat 10)) ++ "%" := by
  rw [percentText, roundedUpOne, if_pos ((isOdd_iff hrank).2 ⟨quarters, h⟩)]

/-- A finite ratio is displayed to the nearest tenth, ties up, unless it is a tie with too many digits. -/
theorem percentText_ofRank (hrank : rank < infinityRank) :
    ∃ n : ℕ, percentText (ofRank false rank) = tenthsText n ++ "%" ∧
      (¬ WideTie (units rank / unitsPerOne) → NearestTenths n (units rank / unitsPerOne)) ∧
      |(n : ℚ) - 10 * (units rank / unitsPerOne)| ≤ 3 / 2 := by
  by_cases htie : ∃ quarters, IsTie rank quarters
  · obtain ⟨quarters, htie⟩ := htie
    refine ⟨_, htie.percentText_eq hrank, ?_⟩
    rw [htie.eq_div]
    constructor
    · intro hwide
      have hnarrow : 5 * quarters < 2 * blockSize := by
        by_contra! hge
        exact hwide ⟨quarters, htie.1, rfl, hge⟩
      have hceiling := htie.ceiling_narrow hrank hnarrow
      have hceiling : (2 * ceiling (ofRank false rank * ofNat 10) : ℚ) = 5 * quarters + 1 := by exact_mod_cast hceiling
      exact nearestTenths_of (by push_cast; linarith) (by push_cast; linarith)
    · obtain ⟨hup, hdown⟩ := htie.ceiling_near hrank
      have hup : (2 * ceiling (ofRank false rank * ofNat 10) : ℚ) ≤ 5 * quarters + 3 := by exact_mod_cast hup
      have hdown : (5 * quarters : ℚ) ≤ 2 * ceiling (ofRank false rank * ofNat 10) + 3 := by exact_mod_cast hdown
      exact abs_le.2 ⟨by linarith, by linarith⟩
  · obtain ⟨n, htext, hnear⟩ := percentText_of_not_tie hrank htie
    obtain ⟨hlow, hhigh⟩ := abs_lt.1 hnear
    exact ⟨n, htext, fun _ => nearestTenths_of (by push_cast; linarith) (by push_cast; linarith), by linarith⟩

end

/-- The ratio of some lines to at least one line is a number, displayed in tenths: as the nearest ones, the greater
of two equally near, unless its tenfold is a half with too many digits; and then at most one and a half tenths off. -/
theorem percentText_tenths {covered instrumented : UInt64} (h : 0 < instrumented) :
    ∃ (x : ℚ) (n : ℕ), (coverageRatio covered instrumented).toRat? = some x ∧
      percentText (coverageRatio covered instrumented) = toString (n / 10) ++ "." ++ toString (n % 10) ++ "%" ∧
      (¬ WideTie x → NearestTenths n x) ∧ |(n : ℚ) - 10 * x| ≤ 3 / 2 := by
  have hrank := ratioRank_lt (UInt64.lt_iff_toNat_lt.1 h) covered.toNat_lt_size.le
  obtain ⟨n, htext, hnearest⟩ := percentText_ofRank hrank
  rw [coverageRatio_eq h]
  exact ⟨_, n, toRat?_ofRank hrank, htext, hnearest⟩

theorem percentText_tenths_sixteenth :
    (0 : UInt64) < 16 ∧ ¬ WideTie (25 / 4) ∧ ∃ n : ℕ,
      percentText (coverageRatio 1 16) = toString (n / 10) ++ "." ++ toString (n % 10) ++ "%" ∧
      NearestTenths n (25 / 4) := by
  have htie : IsTie (ratioRank 1 16) 25 := by
    refine ⟨by decide, ?_⟩
    decide +kernel
  have hvalue : (coverageRatio 1 16).toRat? = some (25 / 4 : ℚ) := by
    rw [coverageRatio_eq (by decide), toRat?_ofRank (ratioRank_lt (by decide) (by decide))]
    exact congrArg some (htie.eq_div.trans (by norm_num))
  have hfew : ¬ WideTie (25 / 4) := by
    rintro ⟨quarters, -, hquarters, hwide⟩
    have hquarters : (quarters : ℚ) = 25 := by linarith
    obtain rfl : quarters = 25 := by exact_mod_cast hquarters
    exact absurd hwide (by decide)
  obtain ⟨x, n, hx, htext, hnearest, -⟩ := @percentText_tenths 1 16 (by decide)
  obtain rfl : 25 / 4 = x := Option.some.inj (hvalue.symm.trans hx)
  exact ⟨by decide, hfew, n, htext, hnearest hfew⟩

/-- A tie whose tenfold is rounded down before its half is rounded up. -/
theorem wide_tie_rounded_down :
    (coverageRatio 72057594037929 16).toRat? = some (450359962737056.25 : ℚ) ∧
      percentText (coverageRatio 72057594037929 16) = "450359962737056.2%" ∧
      ∀ n : ℕ, NearestTenths n (450359962737056.25 : ℚ) →
        toString (n / 10) ++ "." ++ toString (n % 10) ++ "%" = "450359962737056.3%" := by
  have htie : IsTie (ratioRank 72057594037929 16) 1801439850948225 := by
    refine ⟨by decide, ?_⟩
    decide +kernel
  refine ⟨?_, by decide +kernel, ?_⟩
  · rw [coverageRatio_eq (by decide), toRat?_ofRank (ratioRank_lt (by decide) (by decide))]
    exact congrArg some (htie.eq_div.trans (by norm_num))
  · intro n hn
    have hnearest : NearestTenths 4503599627370563 (450359962737056.25 : ℚ) :=
      nearestTenths_of (by norm_num) (by norm_num)
    obtain rfl : n = 4503599627370563 := by exact_mod_cast hn.unique hnearest
    decide

end CoveragePages
