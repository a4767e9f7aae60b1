import Galley.Number.Binary64
import Mathlib.Data.Int.Log
import Mathlib.Tactic

/-!
Rounding quotients. The place of the magnitude that is nearest to a quotient hangs on its value
only, and a magnitude is nearest to itself.

* `gridExponent_eq`: the grid of a quotient, by its binary logarithm;
* `nearestPlace_congr`: quotients of one value are rounded to one place;
* `magnitude`, `magnitude_eq_ratio`: the value of the magnitude at a place;
* `nearestPlace_magnitudeRatio`: it is rounded to its place;
* `magnitude_strictMono`: magnitudes grow with their places;
* `magnitude_bounds`: the values of the finite magnitudes lie between two powers.
-/

namespace Galley

/-! ### Quotients of one value -/

lemma divRound_mul {k : Nat} (hk : 0 < k) (num den : Nat) :
    divRound (num * k) (den * k) = divRound num den := by
  have hmore : den * k < 2 * (num % den * k) ↔ den < 2 * (num % den) := by
    rw [← Nat.mul_assoc, Nat.mul_lt_mul_right hk]
  have hhalf : 2 * (num % den * k) = den * k ↔ 2 * (num % den) = den := by
    rw [← Nat.mul_assoc, Nat.mul_left_inj hk.ne']
  rw [divRound, divRound, Nat.mul_div_mul_right _ _ hk, Nat.mul_mod_mul_right]
  simp only [hmore, Bool.or_eq_true, Bool.and_eq_true, beq_iff_eq, decide_eq_true_eq, hhalf]

lemma divRound_congr {num den num' den' : Nat} (hden : 0 < den) (hden' : 0 < den')
    (h : num * den' = num' * den) : divRound num den = divRound num' den' := by
  rw [← divRound_mul hden' num den, h, Nat.mul_comm den, divRound_mul hden]

/-- The value of a power that is counted in natural numbers. -/
lemma natCast_pow_eq (b n : Nat) : ((Nat.pow b n : Nat) : ℚ) = (b : ℚ) ^ (n : Int) := by
  rw [zpow_natCast]
  exact Nat.cast_pow b n

/-- Which quotients a power of two does not exceed. -/
lemma zpow_le_div_iff {num den : Nat} (hden : 0 < den) (e : Int) :
    (if 0 ≤ e then den * Nat.pow 2 e.toNat ≤ num else den ≤ num * Nat.pow 2 (-e).toNat) ↔
      (2 : ℚ) ^ e ≤ num / den := by
  have hpos : (0 : ℚ) < den := by exact_mod_cast hden
  rw [le_div_iff₀ hpos]
  split_ifs with he
  · rw [← Nat.cast_le (α := ℚ), Nat.cast_mul, natCast_pow_eq, Nat.cast_ofNat,
      Int.toNat_of_nonneg he, mul_comm]
  · rw [← Nat.cast_le (α := ℚ), Nat.cast_mul, natCast_pow_eq, Nat.cast_ofNat,
      Int.toNat_of_nonneg (by omega), zpow_neg, ← div_eq_mul_inv, le_div_iff₀ (by positivity),
      mul_comm]

/-- The binary logarithm of a number, as the bounds that a quotient needs. -/
lemma log2_bounds {n : Nat} (hn : 0 < n) :
    (2 : ℚ) ^ (n.log2 : Int) ≤ n ∧ (n : ℚ) < 2 ^ ((n.log2 : Int) + 1) := by
  constructor
  · rw [zpow_natCast]
    exact_mod_cast Nat.log2_self_le hn.ne'
  · have hlt : n < 2 ^ (n.log2 + 1) := Nat.lt_log2_self
    exact_mod_cast hlt

/-- The logarithms of two numbers tell that of their quotient, but for one. -/
lemma log_div_bounds {num den : Nat} (hnum : 0 < num) (hden : 0 < den) :
    (num.log2 : Int) - den.log2 - 1 ≤ Int.log 2 ((num : ℚ) / den) ∧
      Int.log 2 ((num : ℚ) / den) < (num.log2 : Int) - den.log2 + 1 := by
  have hdenpos : (0 : ℚ) < den := by exact_mod_cast hden
  have hpos : (0 : ℚ) < num / den := div_pos (by exact_mod_cast hnum) hdenpos
  obtain ⟨hnumlow, hnumhigh⟩ := log2_bounds hnum
  obtain ⟨hdenlow, hdenhigh⟩ := log2_bounds hden
  constructor
  · rw [← Int.zpow_le_iff_le_log (b := 2) (by decide) hpos, le_div_iff₀ hdenpos]
    calc ((2 : Nat) : ℚ) ^ ((num.log2 : Int) - den.log2 - 1) * den
        ≤ 2 ^ ((num.log2 : Int) - den.log2 - 1) * 2 ^ ((den.log2 : Int) + 1) := by
          exact mul_le_mul_of_nonneg_left hdenhigh.le (by positivity)
      _ = 2 ^ (num.log2 : Int) := by
          rw [← zpow_add₀ two_ne_zero]
          congr 1
          ring
      _ ≤ num := hnumlow
  · rw [← Int.lt_zpow_iff_log_lt (b := 2) (by decide) hpos, div_lt_iff₀ hdenpos]
    calc (num : ℚ) < 2 ^ ((num.log2 : Int) + 1) := hnumhigh
      _ = 2 ^ ((num.log2 : Int) - den.log2 + 1) * 2 ^ (den.log2 : Int) := by
          rw [← zpow_add₀ two_ne_zero]
          congr 1
          ring
      _ ≤ ((2 : Nat) : ℚ) ^ ((num.log2 : Int) - den.log2 + 1) * den :=
          mul_le_mul_of_nonneg_left hdenlow (by positivity)

/-- The grid of a quotient, by its binary logarithm. -/
lemma gridExponent_eq {num den : Nat} (hnum : 0 < num) (hden : 0 < den) :
    gridExponent num den = max (Int.log 2 ((num : ℚ) / den) - 52) (-1074) := by
  have hdenpos : (0 : ℚ) < den := by exact_mod_cast hden
  have hpos : (0 : ℚ) < num / den := div_pos (by exact_mod_cast hnum) hdenpos
  obtain ⟨hlow, hhigh⟩ := log_div_bounds hnum hden
  have hreached : (2 : ℚ) ^ ((num.log2 : Int) - den.log2) ≤ num / den ↔
      (num.log2 : Int) - den.log2 ≤ Int.log 2 ((num : ℚ) / den) :=
    Int.zpow_le_iff_le_log (b := 2) (by decide) hpos
  rw [gridExponent]
  simp only [zpow_le_div_iff hden, hreached]
  split_ifs <;> omega

/-- Quotients of one value are rounded to one place. -/
lemma nearestPlace_congr {num den num' den' : Nat} (hden : 0 < den) (hden' : 0 < den')
    (h : (num : ℚ) / den = num' / den') : nearestPlace num den = nearestPlace num' den' := by
  have hgrid (hnum : 0 < num) (hnum' : 0 < num') :
      gridExponent num den = gridExponent num' den' := by
    rw [gridExponent_eq hnum hden, gridExponent_eq hnum' hden', h]
  rw [div_eq_div_iff (by exact_mod_cast hden.ne') (by exact_mod_cast hden'.ne')] at h
  replace h : num * den' = num' * den := by exact_mod_cast h
  by_cases hzero : num = 0
  · have hzero' : num' = 0 := by
      rw [hzero, Nat.zero_mul] at h
      exact (Nat.mul_eq_zero.mp h.symm).resolve_right hden.ne'
    rw [hzero, hzero', nearestPlace, nearestPlace, if_pos rfl, if_pos rfl]
  have hnum : 0 < num := Nat.pos_of_ne_zero hzero
  have hnum' : 0 < num' := by
    refine Nat.pos_of_ne_zero fun hzero' => ?_
    rw [hzero', Nat.zero_mul] at h
    exact (Nat.mul_eq_zero.mp h).elim hzero hden'.ne'
  have hpow : ∀ k, 0 < Nat.pow 2 k := fun k => Nat.two_pow_pos k
  have hcoarse (k : Nat) : divRound num (den * k) = divRound num' (den' * k) ∨ k = 0 := by
    rcases Nat.eq_zero_or_pos k with hk | hk
    · exact .inr hk
    · refine .inl (divRound_congr (Nat.mul_pos hden hk) (Nat.mul_pos hden' hk) ?_)
      rw [← Nat.mul_assoc, ← Nat.mul_assoc, h]
  have hfine (k : Nat) : divRound (num * k) den = divRound (num' * k) den' :=
    divRound_congr hden hden' (by rw [Nat.mul_right_comm, h, Nat.mul_right_comm])
  rw [nearestPlace, nearestPlace, if_neg hzero, if_neg hnum'.ne', hgrid hnum hnum']
  dsimp only
  rw [hfine, (hcoarse _).resolve_right (hpow _).ne']

/-! ### Magnitudes -/

lemma exponent_ge (place : Nat) : -1074 ≤ exponent place := by
  have hcount : fractionCount = 2 ^ 52 := rfl
  rw [exponent]
  split_ifs with h
  · exact le_rfl
  · have hone : 1 ≤ place / fractionCount := (Nat.one_le_div_iff (by decide)).mpr (not_lt.mp h)
    omega

/-- A place is the significand there, behind the places of smaller exponents. -/
lemma significand_add (place : Nat) :
    significand place + (exponent place + 1074).toNat * fractionCount = place := by
  have hcount : fractionCount = 2 ^ 52 := rfl
  rw [significand, exponent]
  split_ifs with h
  · simp
  · have hone : 1 ≤ place / fractionCount := (Nat.one_le_div_iff (by decide)).mpr (not_lt.mp h)
    have hshift : ((place / fractionCount : Nat) - 1075 + 1074 : Int).toNat =
        place / fractionCount - 1 := by omega
    have hsplit := Nat.div_add_mod place fractionCount
    have hle := Nat.mul_le_mul_left fractionCount hone
    rw [hshift, Nat.sub_mul, Nat.mul_comm (place / fractionCount)]
    omega

lemma significand_lt (place : Nat) : significand place < 2 ^ 53 := by
  have hcount : fractionCount = 2 ^ 52 := rfl
  have hmod := Nat.mod_lt place (show 0 < fractionCount by decide)
  rw [significand]
  split_ifs <;> omega

lemma significand_pos {place : Nat} (h : place ≠ 0) : 0 < significand place := by
  have hcount : fractionCount = 2 ^ 52 := rfl
  rw [significand]
  split_ifs <;> omega

/-- The magnitude at a place. -/
def magnitude (place : Nat) : ℚ := significand place * 2 ^ exponent place

lemma magnitudeRatio_pos (place : Nat) : 0 < (magnitudeRatio place).2 := by
  simp only [magnitudeRatio]
  split_ifs
  · exact Nat.one_pos
  · exact Nat.two_pow_pos _

lemma magnitude_eq_ratio (place : Nat) :
    ((magnitudeRatio place).1 : ℚ) / (magnitudeRatio place).2 = magnitude place := by
  simp only [magnitudeRatio, magnitude]
  split_ifs with h
  · rw [Nat.cast_mul, natCast_pow_eq, Nat.cast_ofNat, Int.toNat_of_nonneg h, Nat.cast_one, div_one]
  · rw [natCast_pow_eq, Nat.cast_ofNat, Int.toNat_of_nonneg (by omega), zpow_neg, div_inv_eq_mul]

lemma magnitude_pos {place : Nat} (h : place ≠ 0) : 0 < magnitude place :=
  mul_pos (by exact_mod_cast significand_pos h) (by positivity)

lemma magnitude_zero : magnitude 0 = 0 := by
  rw [magnitude, show significand 0 = 0 from rfl, Nat.cast_zero, zero_mul]

lemma magnitudeRatio_ne_zero {place : Nat} (h : place ≠ 0) : 0 < (magnitudeRatio place).1 := by
  have hpos := magnitude_pos h
  rw [← magnitude_eq_ratio] at hpos
  refine Nat.pos_of_ne_zero fun hzero => ?_
  rw [hzero, Nat.cast_zero, zero_div] at hpos
  exact lt_irrefl _ hpos

lemma magnitude_lt (place : Nat) : magnitude place < 2 ^ (exponent place + 53) := by
  have hlt : (significand place : ℚ) < 2 ^ (53 : Int) := by exact_mod_cast significand_lt place
  rw [magnitude, add_comm, zpow_add₀ two_ne_zero]
  exact mul_lt_mul_of_pos_right hlt (by positivity)

/-- Behind the first exponent significands have all their bits. -/
lemma le_magnitude {place : Nat} (h : fractionCount ≤ place) :
    (2 : ℚ) ^ (exponent place + 52) ≤ magnitude place := by
  have hle : (2 : ℚ) ^ (52 : Int) ≤ significand place := by
    have hnat : 2 ^ 52 ≤ significand place := by
      rw [significand, if_neg (not_lt.mpr h)]
      exact Nat.le_add_left _ _
    exact_mod_cast hnat
  rw [magnitude, add_comm, zpow_add₀ two_ne_zero]
  exact mul_le_mul_of_nonneg_right hle (by positivity)

lemma exponent_mono {m n : Nat} (h : m ≤ n) : exponent m ≤ exponent n := by
  have hdiv : m / fractionCount ≤ n / fractionCount := Nat.div_le_div_right h
  have hge := exponent_ge n
  rw [exponent]
  split_ifs with hm
  · exact hge
  · rw [exponent, if_neg fun hn => hm (h.trans_lt hn)]
    omega

/-- Magnitudes grow with their places. -/
lemma magnitude_strictMono : StrictMono magnitude := by
  intro m n h
  rcases (exponent_mono h.le).lt_or_eq with hlt | heq
  · -- all bits of a significand are worth less than the first one at a greater exponent
    have hlarge : fractionCount ≤ n := by
      by_contra hsmall
      have hexponent : exponent n = -1074 := by rw [exponent, if_pos (not_le.mp hsmall)]
      have hge := exponent_ge m
      omega
    calc magnitude m < 2 ^ (exponent m + 53) := magnitude_lt m
      _ ≤ 2 ^ (exponent n + 52) := zpow_le_zpow_right₀ one_le_two (by omega)
      _ ≤ magnitude n := le_magnitude hlarge
  · have hm := significand_add m
    have hn := significand_add n
    rw [heq] at hm
    have hsignificand : significand m < significand n := by omega
    rw [magnitude, magnitude, heq]
    exact mul_lt_mul_of_pos_right (by exact_mod_cast hsignificand) (by positivity)

/-- A magnitude lies on its own grid. -/
lemma gridExponent_magnitudeRatio {place : Nat} (h : place ≠ 0) :
    gridExponent (magnitudeRatio place).1 (magnitudeRatio place).2 = exponent place := by
  rw [gridExponent_eq (magnitudeRatio_ne_zero h) (magnitudeRatio_pos place), magnitude_eq_ratio]
  have hlt : Int.log 2 (magnitude place) < exponent place + 53 :=
    (Int.lt_zpow_iff_log_lt (b := 2) (by decide) (magnitude_pos h)).mp (magnitude_lt place)
  rcases lt_or_ge place fractionCount with hsmall | hlarge
  · have hexponent : exponent place = -1074 := by rw [exponent, if_pos hsmall]
    omega
  · have hle : exponent place + 52 ≤ Int.log 2 (magnitude place) :=
      (Int.zpow_le_iff_le_log (b := 2) (by decide) (magnitude_pos h)).mp (le_magnitude hlarge)
    have hge := exponent_ge place
    omega

lemma divRound_one (n : Nat) : divRound n 1 = n := by
  simp [divRound, Nat.mod_one]

/-- A magnitude is rounded to its place. -/
theorem nearestPlace_magnitudeRatio (place : Nat) :
    nearestPlace (magnitudeRatio place).1 (magnitudeRatio place).2 = place := by
  by_cases hzero : place = 0
  · rw [hzero]
    rfl
  have hround : ∀ k, divRound (significand place * Nat.pow 2 k) (Nat.pow 2 k) =
      significand place := fun k => by
    have h := divRound_mul (Nat.two_pow_pos k) (significand place) 1
    rwa [Nat.one_mul, divRound_one] at h
  rw [nearestPlace, if_neg (magnitudeRatio_ne_zero hzero).ne', gridExponent_magnitudeRatio hzero]
  conv_rhs => rw [← significand_add place]
  dsimp only
  congr 1
  simp only [magnitudeRatio]
  split_ifs
  · dsimp only
    rw [Nat.one_mul, hround]
  · exact hround _

/-- The values of the finite magnitudes but zero lie between two powers. -/
lemma magnitude_bounds {place : Nat} (h : place ≠ 0) (hlt : place < magnitudeCount) :
    (2 : ℚ) ^ (-1074 : Int) ≤ magnitude place ∧ magnitude place < 2 ^ (1024 : Int) := by
  constructor
  · have hone : (1 : ℚ) ≤ significand place := by exact_mod_cast significand_pos h
    calc (2 : ℚ) ^ (-1074 : Int) ≤ 2 ^ exponent place :=
          zpow_le_zpow_right₀ one_le_two (exponent_ge place)
      _ ≤ magnitude place := le_mul_of_one_le_left (by positivity) hone
  · have hexponent : exponent place + 53 ≤ 1024 := by
      rw [exponent]
      split_ifs
      · decide
      · have hdiv : place / fractionCount < 2047 :=
          (Nat.div_lt_iff_lt_mul (show 0 < fractionCount by decide)).mpr hlt
        omega
    exact (magnitude_lt place).trans_le (zpow_le_zpow_right₀ one_le_two hexponent)

end Galley
