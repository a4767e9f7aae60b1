import Galley.Number.Shortest
import Galley.Proofs.Magnitudes

/-!
Reading decimal numbers. What `digits * 10 ^ exponent` is read as hangs on its value only, so a
number comes back from the shortest decimal number that was chosen for it.

* `Scaled.value`: the value of a decimal number;
* `size_bounds`: the number of its digits in front of the point, by its value;
* `scaledPlace`, `ofScaled_eq_ofPlace`: the place of the magnitude that it is read as;
* `scaledPlace_congr`, `scaledPlace_of_value`: decimal numbers of one value are read as one
  magnitude, and the decimal number of a magnitude as that magnitude;
* `ofScaled_shortest`: the shortest decimal number of a magnitude is read as that magnitude.
-/

namespace Galley

/-! ### Values -/

/-- The value of a decimal number. -/
def Scaled.value (s : Scaled) : ℚ := s.digits * 10 ^ s.exponent

lemma Scaled.value_eq_zero {s : Scaled} : s.value = 0 ↔ s.digits = 0 := by
  have hpow : (10 : ℚ) ^ s.exponent ≠ 0 := zpow_ne_zero _ (by norm_num)
  rw [Scaled.value, mul_eq_zero_iff_right hpow, Nat.cast_eq_zero]

/-- The number of digits of a number, as two bounds. -/
lemma length_ofNat_bounds {n : Nat} (h : n ≠ 0) :
    (10 : ℚ) ^ (((Text.ofNat n).length : Int) - 1) ≤ n ∧
      (n : ℚ) < 10 ^ ((Text.ofNat n).length : Int) := by
  have hlength : 0 < (Text.ofNat n).length := Nat.length_toDigits_pos
  constructor
  · have hle : Nat.pow 10 ((Text.ofNat n).length - 1) ≤ n := by
      rcases Nat.eq_or_lt_of_le (Nat.succ_le_of_lt hlength) with hone | hmore
      · rw [← hone]
        exact Nat.pos_of_ne_zero h
      · refine Nat.le_of_not_lt fun hlt => ?_
        have hshort := (Nat.length_toDigits_le_iff (b := 10) (by decide)
          (Nat.sub_pos_of_lt hmore)).mpr hlt
        exact absurd hshort (Nat.not_le_of_lt (Nat.sub_lt hlength Nat.one_pos))
    have hcast : ((Nat.pow 10 ((Text.ofNat n).length - 1) : Nat) : ℚ) ≤ n := by exact_mod_cast hle
    rwa [natCast_pow_eq, Nat.cast_ofNat, Nat.cast_sub hlength] at hcast
  · have hlt : n < Nat.pow 10 (Text.ofNat n).length :=
      (Nat.length_toDigits_le_iff (by decide) hlength).mp le_rfl
    have hcast : (n : ℚ) < (Nat.pow 10 (Text.ofNat n).length : Nat) := by exact_mod_cast hlt
    rwa [natCast_pow_eq, Nat.cast_ofNat] at hcast

/-- The number of digits in front of the point. -/
def Scaled.size (s : Scaled) : Int := (Text.ofNat s.digits).length + s.exponent

/-- The number of digits in front of the point, by the value. -/
lemma size_bounds {s : Scaled} (h : s.digits ≠ 0) :
    (10 : ℚ) ^ (s.size - 1) ≤ s.value ∧ s.value < 10 ^ s.size := by
  obtain ⟨hlow, hhigh⟩ := length_ofNat_bounds h
  have hpos : (0 : ℚ) < 10 ^ s.exponent := by positivity
  constructor
  · rw [Scaled.size, add_sub_right_comm, zpow_add₀ (by norm_num)]
    exact mul_le_mul_of_nonneg_right hlow hpos.le
  · rw [Scaled.size, zpow_add₀ (by norm_num)]
    exact mul_lt_mul_of_pos_right hhigh hpos

lemma size_congr {s t : Scaled} (hs : s.digits ≠ 0) (h : s.value = t.value) (ht : t.digits ≠ 0) :
    s.size = t.size := by
  obtain ⟨hslow, hshigh⟩ := size_bounds hs
  obtain ⟨htlow, hthigh⟩ := size_bounds ht
  rw [h] at hslow hshigh
  have hone : (1 : ℚ) < 10 := by norm_num
  have hst := (zpow_lt_zpow_iff_right₀ hone).mp (hslow.trans_lt hthigh)
  have hts := (zpow_lt_zpow_iff_right₀ hone).mp (htlow.trans_lt hshigh)
  omega

/-! ### The magnitude that is read -/

/-- The place of the magnitude that a decimal number is read as; the number of magnitudes stands for
all places behind them. -/
def scaledPlace (s : Scaled) : Nat :=
  if s.digits = 0 ∨ s.size < -400 then 0
  else if 400 < s.size then magnitudeCount
  else nearestPlace (scaleRatio s.digits 1 s.exponent).1 (scaleRatio s.digits 1 s.exponent).2

lemma ofScaled_eq_ofPlace (negative : Bool) (s : Scaled) :
    Binary64.ofScaled negative s.digits s.exponent = .ofPlace negative (scaledPlace s) := by
  have hinfinity : Binary64.ofPlace negative magnitudeCount = .infinity negative :=
    dif_neg (lt_irrefl _)
  rw [Binary64.ofScaled, scaledPlace, Scaled.size]
  simp only [Bool.or_eq_true, decide_eq_true_eq, scaleRatio, Nat.one_mul, Binary64.ofRatio]
  split_ifs
  · rfl
  · exact hinfinity.symm
  · rfl
  · rfl

lemma scaleRatio_pos {den : Nat} (hden : 0 < den) (num : Nat) (shift : Int) :
    0 < (scaleRatio num den shift).2 := by
  rw [scaleRatio]
  split_ifs
  · exact hden
  · exact Nat.mul_pos hden (Nat.pow_pos (by decide))

lemma scaleRatio_value (s : Scaled) :
    ((scaleRatio s.digits 1 s.exponent).1 : ℚ) / (scaleRatio s.digits 1 s.exponent).2 =
      s.value := by
  rw [scaleRatio, Scaled.value]
  split_ifs with h
  · rw [Nat.cast_mul, natCast_pow_eq, Nat.cast_ofNat, Int.toNat_of_nonneg h, Nat.cast_one, div_one]
  · rw [Nat.one_mul, natCast_pow_eq, Nat.cast_ofNat, Int.toNat_of_nonneg (by omega), zpow_neg,
      div_inv_eq_mul]

/-- Decimal numbers of one value are read as one magnitude. -/
theorem scaledPlace_congr {s t : Scaled} (h : s.value = t.value) :
    scaledPlace s = scaledPlace t := by
  have hzero : s.digits = 0 ↔ t.digits = 0 := by
    rw [← Scaled.value_eq_zero, ← Scaled.value_eq_zero, h]
  have hratio := nearestPlace_congr (scaleRatio_pos Nat.one_pos s.digits s.exponent)
    (scaleRatio_pos Nat.one_pos t.digits t.exponent)
    ((scaleRatio_value s).trans (h.trans (scaleRatio_value t).symm))
  rw [scaledPlace, scaledPlace, hratio]
  by_cases hs : s.digits = 0
  · rw [if_pos (.inl hs), if_pos (.inl (hzero.mp hs))]
  · have ht : t.digits ≠ 0 := fun ht => hs (hzero.mpr ht)
    simp only [hs, ht, size_congr hs h ht]

/-- Ten is more than three factors of two. -/
lemma two_zpow_le_ten_zpow {m : Int} (h : m ≤ 1200) : (2 : ℚ) ^ m ≤ 10 ^ (400 : Int) := by
  calc (2 : ℚ) ^ m ≤ 2 ^ (3 * 400 : Int) := zpow_le_zpow_right₀ one_le_two h
    _ = (2 ^ (3 : Int)) ^ (400 : Int) := zpow_mul _ _ _
    _ ≤ 10 ^ (400 : Int) := zpow_le_zpow_left₀ (by decide) (by positivity) (by norm_num)

/-- The decimal number of a magnitude is read as that magnitude. -/
theorem scaledPlace_of_value {s : Scaled} {place : Nat} (hplace : place ≠ 0)
    (hlt : place < magnitudeCount) (h : s.value = magnitude place) : scaledPlace s = place := by
  have hdigits : s.digits ≠ 0 := by
    rw [ne_eq, ← Scaled.value_eq_zero, h]
    exact (magnitude_pos hplace).ne'
  obtain ⟨hlow, hhigh⟩ := magnitude_bounds hplace hlt
  obtain ⟨hsizelow, hsizehigh⟩ := size_bounds hdigits
  rw [h] at hsizelow hsizehigh
  have hone : (1 : ℚ) < 10 := by norm_num
  have hleast : (10 : ℚ) ^ (-400 : Int) ≤ 2 ^ (-1074 : Int) := by
    rw [zpow_neg, zpow_neg]
    exact inv_anti₀ (by positivity) (two_zpow_le_ten_zpow (by decide))
  have hgreatest : (2 : ℚ) ^ (1024 : Int) ≤ 10 ^ (400 : Int) := two_zpow_le_ten_zpow (by decide)
  have hsmall : -400 < s.size :=
    (zpow_lt_zpow_iff_right₀ hone).mp ((hleast.trans hlow).trans_lt hsizehigh)
  have hlarge : s.size - 1 < 400 :=
    (zpow_lt_zpow_iff_right₀ hone).mp (hsizelow.trans_lt (hhigh.trans_le hgreatest))
  have hratio := nearestPlace_congr (scaleRatio_pos Nat.one_pos s.digits s.exponent)
    (magnitudeRatio_pos place)
    ((scaleRatio_value s).trans (h.trans (magnitude_eq_ratio place).symm))
  rw [scaledPlace, if_neg (by omega), if_neg (by omega), hratio, nearestPlace_magnitudeRatio]

/-! ### The shortest decimal number -/

lemma exactScaled_value (place : Nat) : (exactScaled place).value = magnitude place := by
  rw [exactScaled, magnitude]
  split_ifs with h
  · rw [Scaled.value, Nat.cast_mul, natCast_pow_eq, Nat.cast_ofNat, Int.toNat_of_nonneg h,
      zpow_zero, mul_one]
  · rw [Scaled.value, Nat.cast_mul, natCast_pow_eq, Nat.cast_ofNat,
      Int.toNat_of_nonneg (by omega), mul_assoc, zpow_neg, ← inv_zpow, ← mul_zpow]
    norm_num

lemma reduce_value (fuel : Nat) (s : Scaled) : (s.reduce fuel).value = s.value := by
  induction fuel generalizing s with
  | zero => rfl
  | succ fuel ih =>
      rw [Scaled.reduce]
      split_ifs with h
      · have hdigits : (s.digits : ℚ) = (s.digits / 10 : Nat) * 10 := by
          exact_mod_cast (Nat.div_mul_cancel (Nat.dvd_of_mod_eq_zero h.2)).symm
        rw [ih, Scaled.value, Scaled.value, hdigits, zpow_add₀ (by norm_num), zpow_one]
        ring
      · rfl

lemma ofPlace_inj {negative : Bool} {p q : Nat} (hq : q < magnitudeCount)
    (h : Binary64.ofPlace negative p = .ofPlace negative q) : p = q := by
  rw [Binary64.ofPlace, Binary64.ofPlace, dif_pos hq] at h
  split_ifs at h with hp
  exact congrArg Fin.val (Binary64.finite.inj h).2

lemma scaledPlace_of_readsAs {place : Nat} (hlt : place < magnitudeCount) {s : Scaled}
    (h : readsAs place s = true) : scaledPlace s = place := by
  rw [readsAs, beq_iff_eq, ofScaled_eq_ofPlace] at h
  exact ofPlace_inj hlt h

lemma scaledPlace_shortestAux {place : Nat} (hplace : place ≠ 0) (hlt : place < magnitudeCount)
    (num den fuel count : Nat) : scaledPlace (shortestAux place num den fuel count) = place := by
  induction fuel generalizing count with
  | zero => exact scaledPlace_of_value hplace hlt (exactScaled_value place)
  | succ fuel ih =>
      unfold shortestAux
      cases hfind : (neighbours num den count).find? (readsAs place) with
      | some s => exact scaledPlace_of_readsAs hlt (List.find?_some hfind)
      | none => exact ih (count + 1)

/-- The shortest decimal number of a magnitude is read as that magnitude. -/
theorem scaledPlace_shortest {place : Nat} (hlt : place < magnitudeCount) :
    scaledPlace (shortest place) = place := by
  rw [shortest]
  split_ifs with hplace
  · rw [hplace, scaledPlace, if_pos (.inl rfl)]
  · dsimp only
    rw [scaledPlace_congr (reduce_value 800 _), scaledPlace_shortestAux hplace hlt]

/-- A finite number comes back from its shortest decimal number. -/
theorem ofScaled_shortest (negative : Bool) (place : Fin magnitudeCount) :
    Binary64.ofScaled negative (shortest place).digits (shortest place).exponent =
      .finite negative place := by
  rw [ofScaled_eq_ofPlace, scaledPlace_shortest place.isLt, Binary64.ofPlace, dif_pos place.isLt]

/-- Only zero has no digits but zero, and its exponent is zero then. -/
lemma shortest_exponent {place : Nat} (hlt : place < magnitudeCount)
    (h : (shortest place).digits = 0) : (shortest place).exponent = 0 := by
  have hplace := scaledPlace_shortest hlt
  rw [scaledPlace, if_pos (.inl h)] at hplace
  rw [← hplace]
  rfl

end Galley
