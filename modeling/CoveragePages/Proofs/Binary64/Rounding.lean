/-
Rounding to binary64: a rank lies in a block, whose ranks are the multiples of a power of two, and
rounding a quotient rounds a number of multiples half to even. So the rank that a quotient is rounded
to is off by at most half the spacing, no rank is nearer, rounding is monotone, and it leaves the size
of a rank as it is. Products and quotients are read off their ranks.
-/
import CoveragePages.Binary64.Basic
import Mathlib.Data.Nat.Cast.Order.Field
import Mathlib.Data.Rat.Floor
import Mathlib.Algebra.Order.Floor.Semifield
import Mathlib.Tactic.FieldSimp
import Mathlib.Tactic.Linarith
import Mathlib.Tactic.Positivity
import Mathlib.Tactic.Ring

namespace CoveragePages.Binary64

/-! ## Exact size -/

theorem blockSize_eq : blockSize = 4503599627370496 := rfl

theorem exists_unitsPerOne : ∃ exponent, unitsPerOne = 2 ^ (exponent + 1) := ⟨1073, by decide +kernel⟩

theorem unitsPerOne_pos : 0 < unitsPerOne := by
  obtain ⟨exponent, h⟩ := exists_unitsPerOne
  rw [h]
  positivity

/-- The ranks of a block, its end included, are multiples of the block's spacing. -/
theorem units_scaled {shift t : Nat} (hlow : shift = 0 ∨ blockSize ≤ t) (hhigh : t ≤ 2 * blockSize) :
    units (shift * blockSize + t) = t * 2 ^ shift := by
  rw [blockSize_eq] at *
  unfold units
  rw [blockSize_eq]
  rcases Nat.lt_or_ge t 4503599627370496 with ht | ht
  · obtain rfl : shift = 0 := hlow.resolve_right (by omega)
    rw [if_pos (by omega), pow_zero]
    omega
  rw [if_neg (by omega), Nat.pow_eq]
  rcases Nat.lt_or_ge t (2 * 4503599627370496) with ht' | ht'
  · have hdiv : (shift * 4503599627370496 + t) / 4503599627370496 - 1 = shift := by omega
    have hmod : 4503599627370496 + (shift * 4503599627370496 + t) % 4503599627370496 = t := by omega
    rw [hdiv, hmod]
  · have hdiv : (shift * 4503599627370496 + t) / 4503599627370496 - 1 = shift + 1 := by omega
    have hmod : (shift * 4503599627370496 + t) % 4503599627370496 = 0 := by omega
    rw [hdiv, hmod, pow_succ]
    obtain rfl : t = 2 * 4503599627370496 := by omega
    ring

/-- Every rank stands in a block. -/
theorem exists_scaled (rank : Nat) :
    ∃ shift t, rank = shift * blockSize + t ∧ (shift = 0 ∨ blockSize ≤ t) ∧ t < 2 * blockSize := by
  rw [blockSize_eq]
  refine ⟨rank / 4503599627370496 - 1, rank - (rank / 4503599627370496 - 1) * 4503599627370496, ?_, ?_, ?_⟩ <;> omega

theorem units_strictMono : StrictMono units := by
  refine strictMono_nat_of_lt_succ fun rank => ?_
  obtain ⟨shift, t, rfl, hlow, hhigh⟩ := exists_scaled rank
  rw [units_scaled hlow (by omega), Nat.add_assoc, units_scaled (hlow.imp_right (by omega)) (by omega)]
  exact Nat.mul_lt_mul_of_pos_right (Nat.lt_succ_self t) (by positivity)

/-! ## Rounding to whole numbers -/

/-- Rounding half to even is off by at most a half, and by a half only to an even number. -/
theorem roundHalfEven_spec (num : Nat) {den : Nat} (hden : 0 < den) :
    |(roundHalfEven num den : ℚ) - num / den| ≤ 1 / 2 ∧
      (|(roundHalfEven num den : ℚ) - num / den| = 1 / 2 → roundHalfEven num den % 2 = 0) := by
  have hd : (0 : ℚ) < den := by exact_mod_cast hden
  have hless : ((num % den : ℕ) : ℚ) / den < 1 / 2 ↔ 2 * (num % den) < den := by
    rw [div_lt_div_iff₀ hd two_pos, one_mul, mul_comm]
    exact_mod_cast Iff.rfl
  have hmore : 1 / 2 < ((num % den : ℕ) : ℚ) / den ↔ den < 2 * (num % den) := by
    rw [div_lt_div_iff₀ two_pos hd, one_mul, mul_comm]
    exact_mod_cast Iff.rfl
  have hlow : (0 : ℚ) ≤ ((num % den : ℕ) : ℚ) / den := by positivity
  have hhigh : ((num % den : ℕ) : ℚ) / den < 1 := (div_lt_one hd).2 (by exact_mod_cast Nat.mod_lt num hden)
  have hsplit : (num : ℚ) / den = (num / den : ℕ) + ((num % den : ℕ) : ℚ) / den := by
    rw [div_eq_iff hd.ne', add_mul, div_mul_cancel₀ _ hd.ne']
    exact_mod_cast (Nat.div_add_mod' num den).symm
  rw [hsplit]
  unfold roundHalfEven
  simp only
  generalize ((num % den : ℕ) : ℚ) / den = x at *
  generalize num / den = whole at *
  split
  · have hx : x < 1 / 2 := hless.2 ‹_›
    rw [sub_add_cancel_left, abs_neg, abs_of_nonneg hlow]
    exact ⟨hx.le, fun h => absurd h hx.ne⟩
  · split
    · have hx : 1 / 2 < x := hmore.2 ‹_›
      have hup : ((whole + 1 : ℕ) : ℚ) - (whole + x) = 1 - x := by push_cast; ring
      rw [hup, abs_of_pos (by linarith)]
      exact ⟨by linarith, fun h => absurd h (by linarith)⟩
    · obtain rfl : x = 1 / 2 := le_antisymm (not_lt.1 (mt hmore.1 ‹_›)) (not_lt.1 (mt hless.1 ‹_›))
      have hwhole : ((whole + whole % 2 : ℕ) : ℚ) - (whole + 1 / 2) = (whole % 2 : ℕ) - 1 / 2 := by push_cast; ring
      rw [hwhole]
      refine ⟨?_, fun _ => by omega⟩
      rcases Nat.mod_two_eq_zero_or_one whole with h | h <;> rw [h] <;> norm_num

/-- What is not above a whole number is not rounded above it. -/
theorem roundHalfEven_le {num den n : Nat} (hden : 0 < den) (h : (num : ℚ) / den ≤ n) : roundHalfEven num den ≤ n := by
  have hnear := (abs_le.1 (roundHalfEven_spec num hden).1).2
  have hlt : (roundHalfEven num den : ℚ) < n + 1 := by linarith
  exact Nat.lt_succ_iff.1 (by exact_mod_cast hlt)

/-- What is not below a whole number is not rounded below it. -/
theorem le_roundHalfEven {num den n : Nat} (hden : 0 < den) (h : (n : ℚ) ≤ num / den) : n ≤ roundHalfEven num den := by
  have hnear := (abs_le.1 (roundHalfEven_spec num hden).1).1
  have hlt : (n : ℚ) < roundHalfEven num den + 1 := by linarith
  exact Nat.lt_succ_iff.1 (by exact_mod_cast hlt)

/-- No whole number is nearer. -/
theorem roundHalfEven_nearest {num den : Nat} (hden : 0 < den) (n : Nat) :
    |(roundHalfEven num den : ℚ) - num / den| ≤ |(n : ℚ) - num / den| := by
  have hnear := (roundHalfEven_spec num hden).1
  rcases Nat.lt_trichotomy n (roundHalfEven num den) with hlt | rfl | hgt
  · have hstep : (n : ℚ) + 1 ≤ roundHalfEven num den := by exact_mod_cast hlt
    have hlow := (abs_le.1 hnear).2
    have hdist := neg_le_abs ((n : ℚ) - num / den)
    linarith
  · exact le_rfl
  · have hstep : (roundHalfEven num den : ℚ) + 1 ≤ n := by exact_mod_cast hgt
    have hhigh := (abs_le.1 hnear).1
    have hdist := le_abs_self ((n : ℚ) - num / den)
    linarith

theorem roundHalfEven_mono {num den num' den' : Nat} (hden : 0 < den) (hden' : 0 < den')
    (h : (num : ℚ) / den ≤ num' / den') : roundHalfEven num den ≤ roundHalfEven num' den' := by
  obtain ⟨hnear, heven⟩ := roundHalfEven_spec num hden
  obtain ⟨hnear', heven'⟩ := roundHalfEven_spec num' hden'
  by_contra! hgt
  have hstep : (roundHalfEven num' den' : ℚ) + 1 ≤ roundHalfEven num den := by exact_mod_cast hgt
  have hup := (abs_le.1 hnear).2
  have hdown := (abs_le.1 hnear').1
  -- two ties at one place, and neighbours are not both even
  have htie : |(roundHalfEven num den : ℚ) - num / den| = 1 / 2 := by
    rw [abs_of_nonneg (by linarith)]
    linarith
  have htie' : |(roundHalfEven num' den' : ℚ) - num' / den'| = 1 / 2 := by
    rw [abs_of_nonpos (by linarith)]
    linarith
  have hnext : (roundHalfEven num den : ℚ) = roundHalfEven num' den' + 1 := by linarith
  have hnext : roundHalfEven num den = roundHalfEven num' den' + 1 := by exact_mod_cast hnext
  have := heven htie
  have := heven' htie'
  omega

/-! ## Rounding to ranks -/

/-- How often the spacing has doubled where a number with a whole part lies. -/
def shiftOf (whole : Nat) : Nat := if whole < 2 * blockSize then 0 else whole.log2 - 52

theorem lt_shiftOf (whole : Nat) : whole < 2 * blockSize * 2 ^ shiftOf whole := by
  unfold shiftOf
  split
  · omega
  · rename_i hge
    rw [blockSize_eq] at hge
    have hlog : whole < 2 ^ (whole.log2 + 1) := Nat.lt_log2_self
    have hle : 53 ≤ whole.log2 := (Nat.le_log2 (by omega)).2 (by omega)
    have hpow : 2 * blockSize * 2 ^ (whole.log2 - 52) = 2 ^ (whole.log2 + 1) := by
      rw [show 2 * blockSize = 2 ^ 53 from rfl, ← pow_add]
      congr 1
      omega
    omega

theorem le_shiftOf (whole : Nat) (h : shiftOf whole ≠ 0) : blockSize * 2 ^ shiftOf whole ≤ whole := by
  unfold shiftOf at *
  split
  · rename_i hlt
    exact absurd (if_pos hlt) h
  · rw [if_neg ‹_›] at h
    have hlog : 2 ^ whole.log2 ≤ whole := Nat.log2_self_le (by rintro rfl; exact h rfl)
    have hpow : blockSize * 2 ^ (whole.log2 - 52) = 2 ^ whole.log2 := by
      rw [show blockSize = 2 ^ 52 from rfl, ← pow_add]
      congr 1
      omega
    omega

theorem shiftOf_mono {whole whole' : Nat} (h : whole ≤ whole') : shiftOf whole ≤ shiftOf whole' := by
  by_contra! hlt
  have hhigh := lt_shiftOf whole'
  have hlow := le_shiftOf whole (by omega)
  have hpow : 2 * blockSize * 2 ^ shiftOf whole' ≤ blockSize * 2 ^ shiftOf whole := by
    calc 2 * blockSize * 2 ^ shiftOf whole' = blockSize * 2 ^ (shiftOf whole' + 1) := by ring
      _ ≤ blockSize * 2 ^ shiftOf whole := by gcongr <;> omega
  omega

/-- The rank nearest to `num / den` units, had the ranks no end. -/
def roundedRank (num den : Nat) : Nat :=
  shiftOf (num / den) * blockSize + roundHalfEven num (den * 2 ^ shiftOf (num / den))

theorem nearestRank_eq (num den : Nat) : nearestRank num den = min (roundedRank num den) infinityRank := rfl

section

variable {num den num' den' : Nat}

theorem quotient_lt (num : Nat) (hden : 0 < den) : (num : ℚ) / den < (2 * blockSize : ℕ) * 2 ^ shiftOf (num / den) := by
  have hd : (0 : ℚ) < den := by exact_mod_cast hden
  rw [div_lt_iff₀ hd]
  exact_mod_cast (Nat.div_lt_iff_lt_mul hden).1 (lt_shiftOf (num / den))

theorem le_quotient (h : shiftOf (num / den) ≠ 0) : (blockSize : ℚ) * 2 ^ shiftOf (num / den) ≤ (num : ℚ) / den := by
  have hle : ((blockSize * 2 ^ shiftOf (num / den) : ℕ) : ℚ) ≤ (num / den : ℕ) := by exact_mod_cast le_shiftOf _ h
  push_cast at hle ⊢
  exact hle.trans Nat.cast_div_le

/-- A quotient in multiples of the spacing. -/
theorem quotient_scaled (shift : Nat) : (num : ℚ) / (den * 2 ^ shift : ℕ) = num / den / 2 ^ shift := by
  push_cast
  rw [div_div]

/-- The multiple of the spacing that a quotient is rounded to lies in the block. -/
theorem scaled_bounds (num : Nat) (hden : 0 < den) :
    roundHalfEven num (den * 2 ^ shiftOf (num / den)) ≤ 2 * blockSize ∧
      (shiftOf (num / den) = 0 ∨ blockSize ≤ roundHalfEven num (den * 2 ^ shiftOf (num / den))) := by
  have hpos : 0 < den * 2 ^ shiftOf (num / den) := by positivity
  have hpow : (0 : ℚ) < 2 ^ shiftOf (num / den) := by positivity
  constructor
  · refine roundHalfEven_le hpos ?_
    rw [quotient_scaled, div_le_iff₀ hpow]
    exact (quotient_lt num hden).le
  · refine or_iff_not_imp_left.2 fun h => le_roundHalfEven hpos ?_
    rw [quotient_scaled, le_div_iff₀ hpow]
    exact le_quotient h

theorem units_roundedRank (num : Nat) (hden : 0 < den) :
    units (roundedRank num den) = roundHalfEven num (den * 2 ^ shiftOf (num / den)) * 2 ^ shiftOf (num / den) :=
  units_scaled (scaled_bounds num hden).2 (scaled_bounds num hden).1

/-- The distance of a multiple of the spacing, in multiples of the spacing. -/
theorem distance_scaled (t shift : Nat) :
    |((t * 2 ^ shift : ℕ) : ℚ) - num / den| = |(t : ℚ) - num / (den * 2 ^ shift : ℕ)| * 2 ^ shift := by
  have hpow : (0 : ℚ) < 2 ^ shift := by positivity
  have hscale : ((t * 2 ^ shift : ℕ) : ℚ) - num / den = (t - num / den / 2 ^ shift) * 2 ^ shift := by
    push_cast
    rw [sub_mul, div_mul_cancel₀ _ hpow.ne']
  rw [hscale, abs_mul, abs_of_pos hpow, quotient_scaled]

/-- Rounding to a rank is off by at most half the spacing. -/
theorem roundedRank_near (num : Nat) (hden : 0 < den) :
    |(units (roundedRank num den) : ℚ) - num / den| ≤ 2 ^ shiftOf (num / den) / 2 := by
  have hpos : 0 < den * 2 ^ shiftOf (num / den) := by positivity
  rw [units_roundedRank num hden, distance_scaled]
  calc _ ≤ 1 / 2 * (2 : ℚ) ^ shiftOf (num / den) :=
        mul_le_mul_of_nonneg_right (roundHalfEven_spec num hpos).1 (by positivity)
    _ = _ := by ring

theorem roundedRank_whole_near (hden : 0 < den) (whole : Nat) :
    2 * units (roundedRank (whole * den) den) ≤ 2 * whole + 2 ^ shiftOf whole ∧
      2 * whole ≤ 2 * units (roundedRank (whole * den) den) + 2 ^ shiftOf whole := by
  have hd : (den : ℚ) ≠ 0 := by exact_mod_cast hden.ne'
  have hnear := roundedRank_near (whole * den) hden
  rw [Nat.mul_div_cancel _ hden, Nat.cast_mul, mul_div_cancel_right₀ _ hd] at hnear
  obtain ⟨hlow, hhigh⟩ := abs_le.1 hnear
  have hup : (2 * units (roundedRank (whole * den) den) : ℚ) ≤ 2 * whole + 2 ^ shiftOf whole := by linarith
  have hdown : (2 * whole : ℚ) ≤ 2 * units (roundedRank (whole * den) den) + 2 ^ shiftOf whole := by linarith
  exact ⟨by exact_mod_cast hup, by exact_mod_cast hdown⟩

/-- No rank is nearer to a quotient than the one it is rounded to. -/
theorem roundedRank_nearest (num : Nat) (hden : 0 < den) (rank : Nat) :
    |(units (roundedRank num den) : ℚ) - num / den| ≤ |(units rank : ℚ) - num / den| := by
  -- a multiple of the spacing that is not farther than the rank
  suffices h : ∃ t : Nat, |((t * 2 ^ shiftOf (num / den) : ℕ) : ℚ) - num / den| ≤ |(units rank : ℚ) - num / den| by
    obtain ⟨t, ht⟩ := h
    refine le_trans ?_ ht
    rw [units_roundedRank num hden, distance_scaled, distance_scaled]
    exact mul_le_mul_of_nonneg_right (roundHalfEven_nearest (by positivity) t) (by positivity)
  generalize hshift : shiftOf (num / den) = shift
  rcases Nat.lt_or_ge rank (shift * blockSize + blockSize) with hlow | hlow
  · by_cases hzero : shift = 0
    · -- in the first block the spacing is one unit
      subst hzero
      have hunits : units rank = rank := by
        have h : units (0 * blockSize + rank) = rank * 2 ^ 0 := units_scaled (.inl rfl) (by omega)
        simpa using h
      exact ⟨rank, by rw [hunits, pow_zero, Nat.mul_one]⟩
    · refine ⟨blockSize, ?_⟩
      have hle : ((blockSize * 2 ^ shift : ℕ) : ℚ) ≤ num / den := by
        have hne : shiftOf (num / den) ≠ 0 := by rwa [hshift]
        have h := le_quotient hne
        rw [hshift] at h
        exact_mod_cast h
      have hrank : (units rank : ℚ) ≤ (blockSize * 2 ^ shift : ℕ) := by
        rw [← units_scaled (.inr le_rfl) (by omega)]
        exact_mod_cast units_strictMono.monotone hlow.le
      rw [abs_of_nonpos (by linarith), abs_of_nonpos (by linarith)]
      linarith
  · rcases Nat.le_total rank (shift * blockSize + 2 * blockSize) with hhigh | hhigh
    · have hrank : shift * blockSize + (rank - shift * blockSize) = rank := by omega
      refine ⟨rank - shift * blockSize, ?_⟩
      rw [← units_scaled (.inr (by omega)) (by omega), hrank]
    · refine ⟨2 * blockSize, ?_⟩
      have hle : (num : ℚ) / den ≤ (2 * blockSize * 2 ^ shift : ℕ) := by
        have h := quotient_lt num hden
        rw [hshift] at h
        exact_mod_cast h.le
      have hrank : ((2 * blockSize * 2 ^ shift : ℕ) : ℚ) ≤ units rank := by
        rw [← units_scaled (.inr (by omega)) le_rfl]
        exact_mod_cast units_strictMono.monotone hhigh
      rw [abs_of_nonneg (by linarith), abs_of_nonneg (by linarith)]
      linarith

/-- What is not greater is not rounded to a greater rank. -/
theorem roundedRank_mono (hden : 0 < den) (hden' : 0 < den') (h : (num : ℚ) / den ≤ num' / den') :
    roundedRank num den ≤ roundedRank num' den' := by
  have hwhole : num / den ≤ num' / den' := by
    rw [← Nat.floor_div_eq_div (K := ℚ), ← Nat.floor_div_eq_div (K := ℚ)]
    exact Nat.floor_mono h
  rcases (shiftOf_mono hwhole).eq_or_lt with heq | hlt
  · unfold roundedRank
    rw [heq]
    refine Nat.add_le_add_left (roundHalfEven_mono (by positivity) (by positivity) ?_) _
    rw [quotient_scaled, quotient_scaled]
    gcongr
  · -- the blocks differ, and the end of one is not past the start of the other
    have hhigh := (scaled_bounds num hden).1
    have hlow := (scaled_bounds num' hden').2.resolve_left (by omega)
    have hblock : (shiftOf (num / den) + 1) * blockSize ≤ shiftOf (num' / den') * blockSize :=
      Nat.mul_le_mul_right _ hlt
    rw [Nat.add_mul, Nat.one_mul] at hblock
    unfold roundedRank
    omega

theorem roundedRank_mono_left (hden : 0 < den) (h : num ≤ num') : roundedRank num den ≤ roundedRank num' den :=
  roundedRank_mono hden hden (by gcongr)

/-- The size of a rank is rounded to that rank. -/
theorem roundedRank_units (hden : 0 < den) (rank : Nat) : roundedRank (units rank * den) den = rank := by
  have hd : (den : ℚ) ≠ 0 := by exact_mod_cast hden.ne'
  have hexact : ((units rank * den : ℕ) : ℚ) / den = units rank := by
    push_cast
    exact mul_div_cancel_right₀ _ hd
  have hnearest := roundedRank_nearest (units rank * den) hden rank
  rw [hexact, sub_self, abs_zero, abs_nonpos_iff, sub_eq_zero] at hnearest
  exact units_strictMono.injective (by exact_mod_cast hnearest)

theorem nearestRank_mono_left (hden : 0 < den) (h : num ≤ num') : nearestRank num den ≤ nearestRank num' den :=
  min_le_min_right _ (roundedRank_mono_left hden h)

theorem nearestRank_mono_right (hden : 0 < den) (h : den ≤ den') : nearestRank num den' ≤ nearestRank num den := by
  have hd : (0 : ℚ) < den := by exact_mod_cast hden
  exact min_le_min_right _ (roundedRank_mono (hden.trans_le h) hden (by gcongr))

theorem nearestRank_units (hden : 0 < den) {rank : Nat} (h : rank ≤ infinityRank) :
    nearestRank (units rank * den) den = rank := by
  rw [nearestRank_eq, roundedRank_units hden, min_eq_left h]

end

/-- What is made of few enough doublings of the unit is the size of a rank. -/
theorem exists_units {size shift : Nat} (hdvd : 2 ^ shift ∣ size) (hlt : size < 2 * blockSize * 2 ^ shift) :
    ∃ rank, units rank = size := by
  have hshift : shiftOf size ≤ shift := by
    by_contra! h
    have hle := le_shiftOf size (by omega)
    have hpow : 2 * blockSize * 2 ^ shift ≤ blockSize * 2 ^ shiftOf size := by
      calc 2 * blockSize * 2 ^ shift = blockSize * 2 ^ (shift + 1) := by ring
        _ ≤ blockSize * 2 ^ shiftOf size := by gcongr <;> omega
    omega
  have hhigh := lt_shiftOf size
  have hlow := le_shiftOf size
  generalize shiftOf size = s at *
  obtain ⟨t, rfl⟩ := exists_eq_mul_left_of_dvd ((pow_dvd_pow 2 hshift).trans hdvd)
  have hpos : 0 < 2 ^ s := by positivity
  have hlow' : s = 0 ∨ blockSize ≤ t := or_iff_not_imp_left.2 fun h => Nat.le_of_mul_le_mul_right (hlow h) hpos
  exact ⟨s * blockSize + t, units_scaled hlow' (Nat.lt_of_mul_lt_mul_right hhigh).le⟩

/-! ## Products and quotients -/

section

variable {s t : Bool} {a b : Nat}

theorem ofRank_eq {rank : Nat} (h : rank ≤ infinityRank) : ofRank s rank = ranked s rank h := by
  simp only [ofRank, min_eq_left h]

theorem mul_ofRank (ha : a < infinityRank) (hb : b < infinityRank) :
    ofRank s a * ofRank t b = ofRank (s != t) (nearestRank (units a * units b) unitsPerOne) := by
  rw [ofRank_eq ha.le, ofRank_eq hb.le]
  exact if_neg (not_or.2 ⟨ha.ne, hb.ne⟩)

theorem div_ofRank (ha : a < infinityRank) (hb : b < infinityRank) (hpos : b ≠ 0) :
    ofRank s a / ofRank t b = ofRank (s != t) (nearestRank (units a * unitsPerOne) (units b)) := by
  rw [ofRank_eq ha.le, ofRank_eq hb.le]
  exact (if_neg ha.ne).trans ((if_neg hb.ne).trans (if_neg hpos))

/-- Anything but zero by zero is infinite. -/
theorem div_zero_ofRank (ha : a < infinityRank) (hpos : a ≠ 0) : ofRank s a / ofRank t 0 = infinity (s != t) := by
  rw [ofRank_eq ha.le, ofRank_eq (Nat.zero_le _)]
  exact (if_neg ha.ne).trans ((if_neg (by decide)).trans ((if_pos rfl).trans (if_neg hpos)))

theorem infinity_mul_ofRank (hb : b < infinityRank) (hpos : b ≠ 0) : infinity s * ofRank t b = infinity (s != t) := by
  rw [infinity, ofRank_eq le_rfl, ofRank_eq hb.le]
  show mul _ _ = _
  rw [mul, if_pos (.inl rfl), if_neg (not_or.2 ⟨by decide, hpos⟩), infinity]

end

/-! ## Order -/

theorem le_trans {x y z : Binary64} (hxy : x ≤ y) (hyz : y ≤ z) : x ≤ z := by
  cases x with
  | nan => cases hxy
  | ranked =>
    cases y with
    | nan => cases hxy
    | ranked =>
      cases z with
      | nan => cases hyz
      | ranked => exact decide_eq_true ((of_decide_eq_true hxy).trans (of_decide_eq_true hyz))

theorem ofRank_mono {a b : Nat} (h : a ≤ b) : ofRank false a ≤ ofRank false b :=
  decide_eq_true (Int.ofNat_le.2 (min_le_min_right _ h))

/-! ## Exact value -/

/-- The exact value of a finite number. -/
def toRat? : Binary64 → Option ℚ
  | nan => none
  | ranked negative rank _ =>
    if rank = infinityRank then none else some ((if negative then -1 else 1) * (units rank / unitsPerOne))

theorem toRat?_ofRank {rank : Nat} (h : rank < infinityRank) :
    (ofRank false rank).toRat? = some (units rank / unitsPerOne : ℚ) := by
  rw [ofRank_eq h.le, toRat?, if_neg h.ne, if_neg Bool.false_ne_true, one_mul]

/-- Whether this is a number, and not an infinite one. -/
def isFinite (x : Binary64) : Bool := x.toRat?.isSome

theorem not_infinity_le {x : Binary64} (h : x.isFinite = true) : ¬ infinity false ≤ x := by
  cases x with
  | nan => nofun
  | ranked negative rank hle =>
    have hne : rank ≠ infinityRank := by
      rintro rfl
      simp [isFinite, toRat?] at h
    have hlt : rank < infinityRank := lt_of_le_of_ne hle hne
    intro hinfinity
    have hplace := of_decide_eq_true hinfinity
    cases negative with
    | false =>
      have hrank : (min infinityRank infinityRank : ℤ) ≤ rank := hplace
      omega
    | true =>
      have hrank : (infinityRank : ℤ) ≤ -rank := hplace
      omega

end CoveragePages.Binary64
