import Galley.Number.Numeral
import Galley.Proofs.Decimals
import Galley.Proofs.Numerals

/-!
The texts of numbers, taken apart: the digits in front of the point, those behind it, and the
exponent.

* `Numeral`: the parts of an unsigned number, with `Numeral.text`, `Numeral.scaled`;
* `Numeral.WellFormed`: no zeros in front but a lone one, and nothing but digits;
* `NumberLayout.numeral`, `lay_eq_text`: the parts of a decimal number in a layout;
* `numeral_wellFormed`, `numeral_value`: they are well formed and denote that number;
* `magnitudeNumeral`, `text_finite`: the parts of the text of a finite number;
* `ofScaled_magnitudeNumeral`: they denote that number.
-/

namespace Galley

/-! ### Digits -/

lemma natOfDigits_append (s t : Text) :
    natOfDigits (s ++ t) = 10 ^ t.length * natOfDigits s + natOfDigits t := by
  have h : ∀ u : Text, natOfDigits u = Nat.ofDigitChars 10 u 0 := fun u =>
    Nat.ofDigitChars_eq_foldl.symm
  rw [h, h, h, Nat.ofDigitChars_append, Nat.ofDigitChars_eq_ofDigitChars_zero]

lemma natOfDigits_zeros (n : Nat) : natOfDigits (List.replicate n '0') = 0 := by
  have h : natOfDigits (List.replicate n '0') = Nat.ofDigitChars 10 (List.replicate n '0') 0 :=
    Nat.ofDigitChars_eq_foldl.symm
  rw [h, Nat.ofDigitChars_replicate_zero, Nat.mul_zero]

lemma natOfDigits_ofNat (n : Nat) : natOfDigits (Text.ofNat n) = n := by
  have h : natOfDigits (Text.ofNat n) = Nat.ofDigitChars 10 (Text.ofNat n) 0 :=
    Nat.ofDigitChars_eq_foldl.symm
  rw [h]
  exact Nat.ofDigitChars_ten_toDigits

lemma isDigit_ofNat {n : Nat} {c : Char} (h : c ∈ Text.ofNat n) : isDigit c = true :=
  ofNat_digits h

lemma ofNat_ne_nil (n : Nat) : Text.ofNat n ≠ [] := Nat.toDigits_ne_nil

/-- The notation of a number other than zero begins with another digit than zero. -/
lemma ofNat_head {n : Nat} (h : n ≠ 0) : ∃ d ds, Text.ofNat n = d :: ds ∧ d ≠ '0' := by
  induction n using Nat.strong_induction_on with
  | _ n ih =>
      rw [Text.ofNat, Nat.toDigits_eq_if (by decide)]
      split_ifs with hsmall
      · have hdigit : ∀ k < 10, k ≠ 0 → k.digitChar ≠ '0' := by decide
        exact ⟨_, _, rfl, hdigit n hsmall h⟩
      · obtain ⟨d, ds, hhead, hd⟩ := ih (n / 10) (by omega) (by omega)
        rw [Text.ofNat] at hhead
        exact ⟨d, _, by rw [hhead, List.cons_append], hd⟩

/-! ### Parts -/

/-- The parts of an unsigned number: its digits before and behind the point, and its exponent. -/
structure Numeral where
  whole : Text
  fraction : Text
  exponent : Option Int

/-- The exponent at the end of a number. -/
def exponentPart : Option Int → Text
  | none => []
  | some e => exponentText e

/-- The fraction behind a number. -/
def fractionPart : Text → Text
  | [] => []
  | d :: ds => '.' :: d :: ds

/-- The text with the given parts. -/
def Numeral.text (n : Numeral) : Text :=
  n.whole ++ fractionPart n.fraction ++ exponentPart n.exponent

/-- The decimal number with the given parts. -/
def Numeral.scaled (n : Numeral) : Scaled :=
  ⟨natOfDigits (n.whole ++ n.fraction), n.exponent.getD 0 - n.fraction.length⟩

/-- Digits before the point: a lone zero, or digits that begin with another one. -/
def IsWhole (t : Text) : Prop :=
  (∀ c ∈ t, isDigit c = true) ∧ (t = ['0'] ∨ ∃ d ds, t = d :: ds ∧ d ≠ '0')

/-- The parts are what they should be. -/
structure Numeral.WellFormed (n : Numeral) : Prop where
  whole : IsWhole n.whole
  fraction : ∀ c ∈ n.fraction, isDigit c = true

lemma isWhole_ofNat (n : Nat) : IsWhole (Text.ofNat n) := by
  refine ⟨fun c hc => isDigit_ofNat hc, ?_⟩
  by_cases h : n = 0
  · exact .inl (by rw [h]; rfl)
  · exact .inr (ofNat_head h)

lemma IsWhole.ne_nil {t : Text} (h : IsWhole t) : t ≠ [] := by
  rintro rfl
  rcases h.2 with h | ⟨d, ds, h, -⟩ <;> exact absurd h (by simp)

lemma IsWhole.head {t : Text} (h : IsWhole t) : ∃ d ds, t = d :: ds ∧ isDigit d = true := by
  obtain ⟨d, ds, rfl⟩ := List.exists_cons_of_ne_nil h.ne_nil
  exact ⟨d, ds, rfl, h.1 d List.mem_cons_self⟩

lemma isDigit_zeros {n : Nat} {c : Char} (h : c ∈ List.replicate n '0') : isDigit c = true := by
  rw [List.eq_of_mem_replicate h]
  rfl

/-- Zeros may stand behind all digits but a lone zero. -/
lemma IsWhole.append_zeros {t : Text} (h : IsWhole t) {n : Nat} (hn : t = ['0'] → n = 0) :
    IsWhole (t ++ List.replicate n '0') := by
  refine ⟨fun c hc => (List.mem_append.mp hc).elim (h.1 c) isDigit_zeros, ?_⟩
  rcases h.2 with rfl | ⟨d, ds, rfl, hd⟩
  · exact .inl (by rw [hn rfl]; rfl)
  · exact .inr ⟨d, _, rfl, hd⟩

lemma IsWhole.take {t : Text} (h : IsWhole t) {n : Nat} (hn : 0 < n) : IsWhole (t.take n) := by
  refine ⟨fun c hc => h.1 c (List.mem_of_mem_take hc), ?_⟩
  obtain ⟨n, rfl⟩ := Nat.exists_eq_succ_of_ne_zero hn.ne'
  rcases h.2 with rfl | ⟨d, ds, rfl, hd⟩
  · exact .inl (by rw [List.take_succ_cons, List.take_nil])
  · exact .inr ⟨d, _, List.take_succ_cons, hd⟩

/-! ### The parts of a layout -/

/-- The exponent of the first digit of a decimal number. -/
def Scaled.first (s : Scaled) : Int := if s.digits = 0 then 0 else s.size - 1

/-- The parts of a decimal number in a layout. -/
def NumberLayout.numeral (layout : NumberLayout) (s : Scaled) : Numeral :=
  let digits := Text.ofNat s.digits
  if layout.least ≤ s.first ∧ s.first < layout.limit then
    if s.digits = 0 ∨ 0 ≤ s.exponent then
      ⟨digits ++ List.replicate s.exponent.toNat '0', if layout.keepsPoint then ['0'] else [], none⟩
    else if s.first < 0 then ⟨['0'], List.replicate (-s.first - 1).toNat '0' ++ digits, none⟩
    else ⟨digits.take (s.first + 1).toNat, digits.drop (s.first + 1).toNat, none⟩
  else ⟨digits.take 1, digits.drop 1, some s.first⟩

lemma fractionPart_of_ne_nil {t : Text} (h : t ≠ []) : fractionPart t = '.' :: t := by
  cases t with
  | nil => exact absurd rfl h
  | cons d ds => rfl

lemma lay_eq_text (layout : NumberLayout) (s : Scaled) :
    layout.lay s = (layout.numeral s).text := by
  have hfirst : (if s.digits = 0 then 0 else ((Text.ofNat s.digits).length : Int) + s.exponent - 1)
      = s.first := rfl
  have hne := ofNat_ne_nil s.digits
  rw [NumberLayout.lay, NumberLayout.numeral, hfirst]
  simp only [Bool.and_eq_true, Bool.or_eq_true, decide_eq_true_eq]
  split_ifs with hrange hwhole hpoint hsmall <;>
    simp only [Numeral.text, exponentPart, List.append_nil]
  · rfl
  · rw [fractionPart, List.append_nil]
  · rw [fractionPart_of_ne_nil (by simp [hne])]
    rfl
  · have hlength : (s.first + 1).toNat < (Text.ofNat s.digits).length := by
      rw [Scaled.first, if_neg (by tauto), Scaled.size]
      rw [Scaled.first, if_neg (by tauto), Scaled.size] at hsmall
      omega
    rw [fractionPart_of_ne_nil (by simpa using hlength)]
  · cases hdigits : Text.ofNat s.digits with
    | nil => exact absurd hdigits hne
    | cons d ds => cases ds <;> simp [fractionPart]

/-- The parts are well formed, unless zero has an exponent. -/
lemma numeral_wellFormed (layout : NumberLayout) {s : Scaled}
    (h : s.digits = 0 → s.exponent = 0) : (layout.numeral s).WellFormed := by
  have hwhole := isWhole_ofNat s.digits
  have hlone : Text.ofNat s.digits = ['0'] → s.exponent.toNat = 0 := fun heq => by
    have hzero : s.digits = 0 := by rw [← natOfDigits_ofNat s.digits, heq]; rfl
    rw [h hzero, Int.toNat_zero]
  rw [NumberLayout.numeral]
  split_ifs with hrange hinteger hpoint hsmall
  · exact ⟨hwhole.append_zeros hlone, by simp [isDigit]⟩
  · exact ⟨hwhole.append_zeros hlone, by simp⟩
  · refine ⟨⟨by simp [isDigit], .inl rfl⟩, fun c hc => ?_⟩
    exact (List.mem_append.mp hc).elim isDigit_zeros (hwhole.1 c)
  · exact ⟨hwhole.take (by omega), fun c hc => hwhole.1 c (List.mem_of_mem_drop hc)⟩
  · exact ⟨hwhole.take Nat.one_pos, fun c hc => hwhole.1 c (List.mem_of_mem_drop hc)⟩

/-- Zeros behind the digits of an integer, before the point and behind it. -/
lemma value_zeros {s : Scaled} (h : s.digits = 0 ∨ 0 ≤ s.exponent) (n : Nat) :
    Scaled.value ⟨natOfDigits (Text.ofNat s.digits ++ List.replicate s.exponent.toNat '0' ++
      List.replicate n '0'), 0 - n⟩ = s.value := by
  have hdigits : natOfDigits (Text.ofNat s.digits ++ List.replicate s.exponent.toNat '0' ++
      List.replicate n '0') = Nat.pow 10 n * (Nat.pow 10 s.exponent.toNat * s.digits) := by
    rw [natOfDigits_append, natOfDigits_append, natOfDigits_ofNat, natOfDigits_zeros,
      natOfDigits_zeros, List.length_replicate, List.length_replicate]
    rfl
  rw [hdigits, Scaled.value, Scaled.value]
  rcases h with hzero | hpos
  · simp [hzero]
  · have hcancel : (10 : ℚ) ^ (n : Int) ≠ 0 := by positivity
    rw [Nat.cast_mul, Nat.cast_mul, natCast_pow_eq, natCast_pow_eq, Nat.cast_ofNat,
      Int.toNat_of_nonneg hpos, zero_sub, zpow_neg, mul_comm, inv_mul_cancel_left₀ hcancel,
      mul_comm]

/-- Parts that hold the digits of a decimal number, with the point at its place, denote it. -/
lemma Numeral.value_eq {n : Numeral} {s : Scaled}
    (hdigits : natOfDigits (n.whole ++ n.fraction) = s.digits)
    (hexponent : s.digits ≠ 0 → n.exponent.getD 0 - n.fraction.length = s.exponent) :
    n.scaled.value = s.value := by
  by_cases hzero : s.digits = 0
  · rw [Scaled.value_eq_zero.mpr hzero, Scaled.value_eq_zero]
    exact hdigits.trans hzero
  · rw [Numeral.scaled, hdigits, hexponent hzero]

/-- The parts denote the decimal number. -/
lemma numeral_value (layout : NumberLayout) (s : Scaled) :
    (layout.numeral s).scaled.value = s.value := by
  have hlength := List.length_pos_of_ne_nil (ofNat_ne_nil s.digits)
  have hfirst : s.digits ≠ 0 → s.first = (Text.ofNat s.digits).length + s.exponent - 1 :=
    fun h => by rw [Scaled.first, if_neg h, Scaled.size]
  rw [NumberLayout.numeral]
  split_ifs with hrange hinteger hpoint hsmall
  · exact value_zeros hinteger 1
  · exact value_zeros hinteger 0
  · have hzero : s.digits ≠ 0 := fun h => hinteger (.inl h)
    have hneg := hfirst hzero
    refine Numeral.value_eq ?_ fun _ => ?_
    · rw [natOfDigits_append, natOfDigits_append (List.replicate _ _), natOfDigits_zeros,
        natOfDigits_ofNat, show natOfDigits ['0'] = 0 from rfl, Nat.mul_zero, Nat.mul_zero,
        Nat.zero_add, Nat.zero_add]
    · simp only [Option.getD_none, List.length_append, List.length_replicate]
      omega
  · have hnonneg := hfirst fun h => hinteger (.inl h)
    refine Numeral.value_eq ?_ fun _ => ?_
    · rw [List.take_append_drop, natOfDigits_ofNat]
    · simp only [Option.getD_none, List.length_drop]
      omega
  · refine Numeral.value_eq ?_ fun hzero => ?_
    · rw [List.take_append_drop, natOfDigits_ofNat]
    · have hmore := hfirst hzero
      simp only [Option.getD_some, List.length_drop]
      omega

/-- Values show that they are no integers, by a fraction or by an exponent. -/
lemma numeral_isReal (s : Scaled) :
    (valueLayout.numeral s).fraction ≠ [] ∨ (valueLayout.numeral s).exponent.isSome := by
  have hpoint : valueLayout.keepsPoint = true := rfl
  rw [NumberLayout.numeral]
  split_ifs with hrange hinteger hsmall
  · exact .inl (List.cons_ne_nil _ _)
  · exact .inl (by simp [ofNat_ne_nil])
  · have hlength : (s.first + 1).toNat < (Text.ofNat s.digits).length := by
      rw [Scaled.first, if_neg (by tauto), Scaled.size] at hsmall ⊢
      omega
    exact .inl (by simpa using hlength)
  · exact .inr rfl

/-! ### Numbers -/

/-- The sign in front of a number. -/
def signText (negative : Bool) : Text := if negative then ['-'] else []

/-- The parts of a magnitude. -/
def magnitudeNumeral (place : Nat) : Numeral := valueLayout.numeral (shortest place)

lemma text_finite (negative : Bool) (place : Fin magnitudeCount) :
    (Binary64.finite negative place).text =
      signText negative ++ (magnitudeNumeral place).text := by
  rw [Binary64.text, Binary64.textWith, lay_eq_text]
  cases negative <;> rfl

lemma magnitudeNumeral_wellFormed (place : Fin magnitudeCount) :
    (magnitudeNumeral place).WellFormed :=
  numeral_wellFormed valueLayout (shortest_exponent place.isLt)

/-- The number that the parts of a magnitude denote is that magnitude. -/
theorem ofScaled_magnitudeNumeral (negative : Bool) (place : Fin magnitudeCount) :
    Binary64.ofScaled negative (magnitudeNumeral place).scaled.digits
      (magnitudeNumeral place).scaled.exponent = .finite negative place := by
  have hplace : scaledPlace (magnitudeNumeral place).scaled = scaledPlace (shortest place) :=
    scaledPlace_congr (numeral_value valueLayout (shortest place))
  rw [ofScaled_eq_ofPlace, hplace, ← ofScaled_eq_ofPlace, ofScaled_shortest]

end Galley
