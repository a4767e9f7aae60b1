import Galley.Proofs.Magnitudes
import Mathlib.Tactic

/-!
Rounding integers.

* `le_divRound_iff`: how large a rounded quotient is;
* `nearestPlace_of_lt`, `nearestPlace_of_le`: the place of an integer, below and above the integers
  that the grid resolves;
* `ofInt?_eq_none`: the integers that are out of range.
-/

namespace Galley

/-! ### Rounded quotients -/

lemma divRound_bounds (num den : Nat) :
    num / den ≤ divRound num den ∧ divRound num den ≤ num / den + 1 := by
  rw [divRound]
  split_ifs
  · exact ⟨Nat.le_succ _, le_rfl⟩
  · exact ⟨le_rfl, Nat.le_succ _⟩

/-- A half goes to the even neighbour, so a rounded quotient reaches an even number as soon as the
quotient falls short of it by a half at most. -/
lemma le_divRound_iff {c den : Nat} (num : Nat) (hden : 0 < den) (hc : c % 2 = 0) :
    c ≤ divRound num den ↔ 2 * c * den ≤ 2 * num + den := by
  have hnum := Nat.div_add_mod num den
  have hr := Nat.mod_lt num hden
  obtain ⟨hlow, hhigh⟩ := divRound_bounds num den
  rcases lt_trichotomy c (num / den + 1) with hlt | rfl | hgt
  · have hle : c * den ≤ den * (num / den) := by
      rw [Nat.mul_comm]
      exact Nat.mul_le_mul_left den (Nat.le_of_lt_succ hlt)
    have hquot : 2 * c * den ≤ 2 * num + den := by
      rw [Nat.mul_assoc]
      omega
    exact iff_of_true (by omega) hquot
  · have hodd : num / den % 2 = 1 := by omega
    have hsplit : 2 * (num / den + 1) * den = 2 * (den * (num / den)) + 2 * den := by ring
    rw [divRound, hsplit]
    simp only [hodd]
    split_ifs with hup <;> simp at hup <;> omega
  · have hle : den * (num / den + 2) ≤ c * den := by
      rw [Nat.mul_comm c]
      exact Nat.mul_le_mul_left den hgt
    have hquot : ¬ 2 * c * den ≤ 2 * num + den := by
      rw [Nat.mul_assoc]
      rw [Nat.mul_add] at hle
      omega
    exact iff_of_false (by omega) hquot

/-! ### Places of integers -/

lemma gridExponent_one {n : Nat} (hn : n ≠ 0) : gridExponent n 1 = (n.log2 : Int) - 52 := by
  have hreached : 1 * Nat.pow 2 n.log2 ≤ n := by
    rw [Nat.one_mul]
    exact Nat.log2_self_le hn
  rw [gridExponent]
  simp only [show Nat.log2 1 = 0 from rfl, Nat.cast_zero, sub_zero, Int.natCast_nonneg, if_true,
    Int.toNat_natCast, hreached]
  omega

/-- Small integers are magnitudes. -/
lemma nearestPlace_of_lt {n : Nat} (hn : n ≠ 0) (hlog : n.log2 < 52) :
    nearestPlace n 1 = n * 2 ^ (52 - n.log2) + (n.log2 + 1022) * fractionCount := by
  have hneg : ¬ (0 : Int) ≤ (n.log2 : Int) - 52 := by omega
  have hpow : (-((n.log2 : Int) - 52)).toNat = 52 - n.log2 := by omega
  have hshift : ((n.log2 : Int) - 52 + 1074).toNat = n.log2 + 1022 := by omega
  rw [nearestPlace, if_neg hn, gridExponent_one hn]
  simp only [hneg, if_false, hpow, hshift, divRound_one]
  rfl

/-- Large integers are rounded to a multiple of a power of two. -/
lemma nearestPlace_of_le {n : Nat} (hn : n ≠ 0) (hlog : 52 ≤ n.log2) :
    nearestPlace n 1 = divRound n (2 ^ (n.log2 - 52)) + (n.log2 + 1022) * fractionCount := by
  have hpos : (0 : Int) ≤ (n.log2 : Int) - 52 := by omega
  have hpow : ((n.log2 : Int) - 52).toNat = n.log2 - 52 := by omega
  have hshift : ((n.log2 : Int) - 52 + 1074).toNat = n.log2 + 1022 := by omega
  rw [nearestPlace, if_neg hn, gridExponent_one hn]
  simp only [hpos, if_true, hpow, hshift, Nat.one_mul]
  rfl

/-- Integers below the last power of two are in range, even if they are rounded up to it. -/
lemma nearestPlace_lt {n : Nat} (hlog : n.log2 < 1023) : nearestPlace n 1 < magnitudeCount := by
  by_cases hn : n = 0
  · rw [hn]
    decide +kernel
  have hhigh : n < 2 ^ (n.log2 + 1) := Nat.lt_log2_self
  have hcount : magnitudeCount = 2047 * 2 ^ 52 := rfl
  have hfractions : fractionCount = 2 ^ 52 := rfl
  rcases lt_or_ge n.log2 52 with hsmall | hlarge
  · have hscaled : n * 2 ^ (52 - n.log2) < 2 ^ 53 := by
      calc n * 2 ^ (52 - n.log2)
          < 2 ^ (n.log2 + 1) * 2 ^ (52 - n.log2) :=
            Nat.mul_lt_mul_of_pos_right hhigh (Nat.two_pow_pos _)
        _ = 2 ^ 53 := by
            rw [← Nat.pow_add, show n.log2 + 1 + (52 - n.log2) = 53 by omega]
    rw [nearestPlace_of_lt hn hsmall, hcount, hfractions]
    omega
  · have hquot : n / 2 ^ (n.log2 - 52) < 2 ^ 53 := by
      rw [Nat.div_lt_iff_lt_mul (Nat.two_pow_pos _), ← Nat.pow_add]
      exact hhigh.trans_eq (congrArg (2 ^ ·) (by omega))
    have hround := (divRound_bounds n (2 ^ (n.log2 - 52))).2
    rw [nearestPlace_of_le hn hlarge, hcount, hfractions]
    omega

/-- Integers from the next power of two on are out of range. -/
lemma magnitudeCount_le_nearestPlace {n : Nat} (hlog : 1023 < n.log2) :
    magnitudeCount ≤ nearestPlace n 1 := by
  have hn : n ≠ 0 := by
    rintro rfl
    exact absurd hlog (by decide)
  have hquot : 2 ^ 52 ≤ n / 2 ^ (n.log2 - 52) := by
    rw [Nat.le_div_iff_mul_le (Nat.two_pow_pos _), ← Nat.pow_add]
    exact (congrArg (2 ^ ·) (by omega)).trans_le (Nat.log2_self_le hn)
  have hround := (divRound_bounds n (2 ^ (n.log2 - 52))).1
  have hcount : magnitudeCount = 2047 * 2 ^ 52 := rfl
  have hfractions : fractionCount = 2 ^ 52 := rfl
  rw [nearestPlace_of_le hn (by omega), hcount, hfractions]
  omega

/-- The least natural number that is out of range: the largest finite magnitude is
`2 ^ 1024 - 2 ^ 971`, and from half a step above it on everything is rounded up. -/
def rangeBound : Nat := 2 ^ 1024 - 2 ^ 970

/-- On a grid whose last multiple is rounded up from a bound on, the integers that reach the place
behind it are those from the bound on. -/
lemma lastPlace_le_iff {grid bound : Nat} (n : Nat) (hgrid : 0 < grid)
    (hbound : 2 * 2 ^ 53 * grid = 2 * bound + grid) :
    2047 * 2 ^ 52 ≤ divRound n grid + (1023 + 1022) * 2 ^ 52 ↔ bound ≤ n := by
  calc 2047 * 2 ^ 52 ≤ divRound n grid + (1023 + 1022) * 2 ^ 52
      ↔ 2 ^ 53 ≤ divRound n grid := by
        clear hbound
        omega
    _ ↔ 2 * bound + grid ≤ 2 * n + grid := by
        rw [le_divRound_iff n hgrid (by decide), hbound]
    _ ↔ bound ≤ n := by
        clear hbound
        omega

/-- In between, the integers are out of range that are rounded up to the next power of two. -/
lemma magnitudeCount_le_nearestPlace_iff {n : Nat} (hlog : n.log2 = 1023) :
    magnitudeCount ≤ nearestPlace n 1 ↔ rangeBound ≤ n := by
  have hn : n ≠ 0 := by
    rintro rfl
    exact absurd hlog (by decide)
  have hcount : magnitudeCount = 2047 * 2 ^ 52 := rfl
  have hfractions : fractionCount = 2 ^ 52 := rfl
  rw [nearestPlace_of_le hn (by omega), hcount, hfractions, hlog]
  exact lastPlace_le_iff n (by decide +kernel) (by decide +kernel)

/-- An integer has no number if and only if it is out of range. -/
theorem Binary64.ofInt?_eq_none {n : Int} : ofInt? n = none ↔ rangeBound ≤ n.natAbs := by
  have hplace : magnitudeCount ≤ nearestPlace n.natAbs 1 ↔ rangeBound ≤ n.natAbs := by
    have hmono : ∀ j k, j ≤ k → 2 ^ j ≤ 2 ^ k := fun _ _ => Nat.pow_le_pow_right Nat.two_pos
    have hrange : 2 ^ 1023 ≤ rangeBound ∧ rangeBound ≤ 2 ^ 1024 := by decide +kernel
    rcases lt_trichotomy n.natAbs.log2 1023 with hlt | heq | hgt
    · have hhigh : n.natAbs < 2 ^ (n.natAbs.log2 + 1) := Nat.lt_log2_self
      have hpow := hmono _ 1023 hlt
      have hplace := nearestPlace_lt hlt
      exact iff_of_false (by omega) (by omega)
    · exact magnitudeCount_le_nearestPlace_iff heq
    · have hlow : 2 ^ n.natAbs.log2 ≤ n.natAbs := Nat.log2_self_le (by rintro h; simp [h] at hgt)
      have hpow := hmono 1024 _ hgt
      exact iff_of_true (magnitudeCount_le_nearestPlace hgt) (by omega)
  rw [← hplace, ofInt?, ofRatio, ofPlace]
  split_ifs with h
  · simp [h]
  · simp [Nat.le_of_not_lt h]

end Galley
