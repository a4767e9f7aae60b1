import Galley.Proofs.Tokens
import Galley.Proofs.Trimming
import Mathlib.Tactic

/-!
Scales that are numbers. The argument for a number is a numeral that is read as that number, so two
scales that denote one number give one argument, and an argument is its own argument.

* `scaleAlphabet`: the characters of arguments that are numbers;
* `readNumber?_numeral`: a sign with the text of a numeral is read as what its parts denote;
* `cutFraction`, `dropEndZeros_numeral`: without zeros at its end it is a numeral of the same value;
* `exists_numeral`: the argument for a finite number is a numeral that denotes it;
* `readNumber?_numberArgument`, `numberArgument_congr`: so it is read as that number, and numbers
  that are the same have one argument;
* `scaleArgument_of_number`: a text that denotes a finite number is none of the words;
* `scaleArgument_canonical`: the whole account.
-/

namespace Galley

/-! ### Reading numerals -/

/-- The characters of arguments that are numbers. -/
def scaleAlphabet : Text := "0123456789-+.e".toList

lemma mem_scaleAlphabet_of_isDigit {c : Char} (h : isDigit c = true) : c ∈ scaleAlphabet := by
  have hdigits : digitAlphabet ⊆ scaleAlphabet := by decide
  exact hdigits (mem_digitAlphabet h)

lemma signText_subset (negative : Bool) : signText negative ⊆ scaleAlphabet := by
  cases negative <;> decide

lemma fractionPart_subset {fraction : Text} (h : ∀ c ∈ fraction, isDigit c = true) :
    fractionPart fraction ⊆ scaleAlphabet := by
  cases fraction with
  | nil => exact List.nil_subset _
  | cons d ds =>
      exact List.cons_subset.mpr ⟨by decide, fun c hc => mem_scaleAlphabet_of_isDigit (h c hc)⟩

lemma exponentPart_subset (e : Option Int) : exponentPart e ⊆ scaleAlphabet := by
  cases e with
  | none => exact List.nil_subset _
  | some e =>
      rw [exponentPart, Json.exponentText_eq]
      refine List.cons_subset.mpr ⟨by decide, List.cons_subset.mpr ⟨?_, fun c hc => ?_⟩⟩
      · split_ifs <;> decide
      · exact mem_scaleAlphabet_of_isDigit ((Json.exponentDigits_spec e).2.1 c hc)

lemma Numeral.WellFormed.text_subset {n : Numeral} (h : n.WellFormed) :
    n.text ⊆ scaleAlphabet := by
  rw [Numeral.text]
  refine List.append_subset.mpr ⟨List.append_subset.mpr ⟨fun c hc => ?_, ?_⟩, ?_⟩
  · exact mem_scaleAlphabet_of_isDigit (h.whole.1 c hc)
  · exact fractionPart_subset h.fraction
  · exact exponentPart_subset n.exponent

lemma dropUnderscores_of_notMem (afterDigit : Bool) {t : Text} (h : '_' ∉ t) :
    dropUnderscores afterDigit t = some t := by
  induction t generalizing afterDigit with
  | nil => rfl
  | cons c t ih =>
      obtain ⟨hc, ht⟩ := not_or.mp (List.mem_cons.not.mp h)
      rw [dropUnderscores, ih _ ht, Option.map_some]
      exact fun heq => hc heq.symm

/-- A text that is written with these characters is plain. -/
lemma plainNumeral_of_subset {t : Text} (h : t ⊆ scaleAlphabet) : plainNumeral t = some t := by
  have hall : ∀ c ∈ scaleAlphabet, isNumeralSpace c = false ∧ plainDigit c = c :=
    List.forall_iff_forall_mem.mp (by decide)
  have htrim : trimBy isNumeralSpace t = t :=
    trimBy_eq_self (fun c hc => (hall c (h (List.mem_of_mem_head? hc))).1)
      fun c hc => (hall c (h (List.mem_of_mem_getLast? hc))).1
  have hmap : t.map plainDigit = t :=
    (List.map_congr_left fun c hc => (hall c (h hc)).2).trans (List.map_id t)
  rw [plainNumeral, htrim, hmap, dropUnderscores_of_notMem]
  exact fun hmem => absurd (h hmem) (by decide)

lemma splitDigits_append {ds rest : Text} (hdigits : ∀ c ∈ ds, isDigit c = true)
    (hrest : ∀ c ∈ rest.head?, isDigit c = false) : splitDigits (ds ++ rest) = (ds, rest) := by
  obtain ⟨htake, hdrop⟩ := span_append hdigits hrest
  rw [splitDigits, htake, hdrop]

lemma readExponent?_exponentPart (e : Option Int) :
    readExponent? (exponentPart e) = some (e.getD 0) := by
  cases e with
  | none => rfl
  | some e =>
      obtain ⟨hne, hdigits, hvalue⟩ := Json.exponentDigits_spec e
      have hempty : (Json.exponentDigits e).isEmpty = false := by simpa using hne
      have hall : (Json.exponentDigits e).all isDigit = true := List.all_eq_true.mpr hdigits
      rw [exponentPart, Json.exponentText_eq, readExponent?]
      rcases lt_or_ge e 0 with hneg | hpos
      · have hsign : -((e.natAbs : Nat) : Int) = e := by omega
        simp only [if_pos hneg, splitSign, hempty, hall, hvalue, hsign]
        rfl
      · have hsign : ((e.natAbs : Nat) : Int) = e := by omega
        simp only [if_neg (not_lt.mpr hpos), splitSign, hempty, hall, hvalue, hsign]
        rfl

/-- A numeral begins with a digit, so it is none of the words for numbers. -/
lemma Numeral.WellFormed.ne_word {n : Numeral} (h : n.WellFormed) {c : Char}
    (hc : isLetter c = true) (w : Text) : (n.text.map smallLetter == (c :: w)) = false := by
  have hsmall : ∀ d ∈ digitAlphabet, smallLetter d = d ∧ isLetter d = false :=
    List.forall_iff_forall_mem.mp (by decide)
  obtain ⟨d, ds, hwhole, hd⟩ := h.whole.head
  obtain ⟨hsame, hletter⟩ := hsmall d (mem_digitAlphabet hd)
  refine beq_false_of_ne fun heq => ?_
  rw [Numeral.text, hwhole, List.cons_append, List.cons_append, List.map_cons, hsame] at heq
  rw [(List.cons.inj heq).1, hc] at hletter
  exact Bool.noConfusion hletter

lemma head_exponentPart {e : Option Int} {c : Char} (h : c ∈ (exponentPart e).head?) :
    c = 'e' := by
  cases e with
  | none => simp [exponentPart] at h
  | some e => simpa [exponentPart, Json.exponentText_eq, eq_comm] using h

lemma head_fractionPart {fraction : Text} {c : Char} (h : c ∈ (fractionPart fraction).head?) :
    c = '.' := by
  cases fraction with
  | nil => simp [fractionPart] at h
  | cons d ds => simpa [fractionPart, eq_comm] using h

/-- The text of a numeral is read as what its parts denote. -/
lemma readMagnitude?_numeral (negative : Bool) {n : Numeral} (h : n.WellFormed) :
    readMagnitude? negative n.text =
      some (.ofScaled negative n.scaled.digits n.scaled.exponent) := by
  have hexponent : ∀ c ∈ (exponentPart n.exponent).head?, isDigit c = false := fun c hc =>
    head_exponentPart hc ▸ rfl
  have hbehind : ∀ c ∈ (fractionPart n.fraction ++ exponentPart n.exponent).head?,
      isDigit c = false := fun c hc => by
    rw [List.head?_append, Option.mem_def, Option.or_eq_some_iff] at hc
    rcases hc with hc | ⟨-, hc⟩
    · exact head_fractionPart hc ▸ rfl
    · exact hexponent c hc
  have hwhole : splitDigits n.text =
      (n.whole, fractionPart n.fraction ++ exponentPart n.exponent) := by
    rw [Numeral.text, List.append_assoc]
    exact splitDigits_append h.whole.1 hbehind
  have hne : n.whole.isEmpty = false := by simpa using h.whole.ne_nil
  have hletters : isLetter 'i' = true ∧ isLetter 'n' = true := ⟨rfl, rfl⟩
  rw [readMagnitude?]
  simp only [show "inf".toList = 'i' :: "nf".toList from rfl,
    show "infinity".toList = 'i' :: "nfinity".toList from rfl,
    show "nan".toList = 'n' :: "an".toList from rfl, h.ne_word hletters.1, h.ne_word hletters.2,
    Bool.or_self, Bool.false_eq_true, if_false, hwhole]
  cases hfraction : n.fraction with
  | nil =>
      rw [fractionPart, List.nil_append]
      split
      · rename_i cs heq
        have hpoint : '.' = 'e' := head_exponentPart (by rw [heq]; rfl)
        exact absurd hpoint (by decide)
      · rw [hne, readExponent?_exponentPart, Numeral.scaled, hfraction]
        rfl
  | cons d ds =>
      have hsplit := splitDigits_append h.fraction hexponent
      rw [hfraction] at hsplit
      rw [fractionPart, List.cons_append]
      simp only [hsplit, hne, Bool.false_and, Bool.false_eq_true, if_false,
        readExponent?_exponentPart, Option.map_some]
      rw [Numeral.scaled, hfraction]

/-- A sign with the text of a numeral is read as what its parts denote. -/
lemma readNumber?_numeral (negative : Bool) {n : Numeral} (h : n.WellFormed) :
    readNumber? (signText negative ++ n.text) =
      some (.ofScaled negative n.scaled.digits n.scaled.exponent) := by
  have hsubset : signText negative ++ n.text ⊆ scaleAlphabet :=
    List.append_subset.mpr ⟨signText_subset negative, h.text_subset⟩
  have hsign : splitSign (signText negative ++ n.text) = (negative, n.text) := by
    obtain ⟨d, ds, hwhole, hd⟩ := h.whole.head
    cases negative with
    | true => rfl
    | false =>
        have hplain : ∀ d ∈ digitAlphabet, d ≠ '-' ∧ d ≠ '+' :=
          List.forall_iff_forall_mem.mp (by decide)
        obtain ⟨hminus, hplus⟩ := hplain d (mem_digitAlphabet hd)
        rw [signText, Numeral.text, hwhole]
        simp [splitSign, hminus, hplus]
  rw [readNumber?, plainNumeral_of_subset hsubset, Option.bind_eq_bind, Option.bind_some, hsign]
  exact readMagnitude?_numeral negative h

/-! ### Zeros at the end -/

/-- Zeros behind the digits of a fraction do not change the value. -/
lemma value_append_zeros (whole fraction : Text) (n : Nat) :
    Scaled.value ⟨natOfDigits (whole ++ (fraction ++ List.replicate n '0')),
        0 - ((fraction ++ List.replicate n '0').length : Int)⟩ =
      Scaled.value ⟨natOfDigits (whole ++ fraction), 0 - (fraction.length : Int)⟩ := by
  have hten : (10 : ℚ) ^ (n : Int) ≠ 0 := by positivity
  have hexponent : (0 : Int) - ((fraction ++ List.replicate n '0').length : Int) =
      -(n : Int) + (0 - (fraction.length : Int)) := by
    rw [List.length_append, List.length_replicate]
    push_cast
    ring
  rw [← List.append_assoc, natOfDigits_append, natOfDigits_zeros, List.length_replicate,
    Nat.add_zero, Scaled.value, Scaled.value, hexponent, zpow_add₀ (by norm_num), zpow_neg]
  push_cast
  rw [← zpow_natCast]
  field_simp

/-- What is cut off the end of digits are zeros. -/
lemma exists_endZeros (t : Text) :
    ∃ n, t = dropEndWhile (· == '0') t ++ List.replicate n '0' := by
  obtain ⟨back, hsplit, hback⟩ := exists_dropEndWhile (· == '0') t
  have hzeros : back = List.replicate back.length '0' :=
    List.eq_replicate_iff.mpr ⟨rfl, fun c hc => beq_iff_eq.mp (hback c hc)⟩
  exact ⟨back.length, by rwa [← hzeros]⟩

/-- Zeros at the end are cut off up to a character that is none. -/
lemma dropEndWhile_append_cons {c : Char} (hc : c ≠ '0') (s t : Text) :
    dropEndWhile (· == '0') (s ++ c :: t) = s ++ c :: dropEndWhile (· == '0') t := by
  have hstop : (c == '0') = false := beq_false_of_ne hc
  rw [dropEndWhile, dropEndWhile, List.reverse_append, List.reverse_cons, List.append_assoc,
    List.dropWhile_append]
  split_ifs with hempty
  · rw [List.isEmpty_iff.mp hempty]
    simp [hstop]
  · simp

/-- A fraction without the zeros at its end, but for a lone one. -/
def cutFraction (fraction : Text) : Text :=
  match dropEndWhile (· == '0') fraction with
  | [] => ['0']
  | d :: ds => d :: ds

lemma isDigit_cutFraction {fraction : Text} (h : ∀ c ∈ fraction, isDigit c = true) :
    ∀ c ∈ cutFraction fraction, isDigit c = true := by
  intro c hc
  rw [cutFraction] at hc
  split at hc
  · exact List.mem_singleton.mp hc ▸ rfl
  · rename_i d ds heq
    exact h c (dropEndWhile_subset _ fraction (heq ▸ hc))

/-- Without the zeros at its end a fraction has the same value. -/
lemma value_cutFraction (whole fraction : Text) :
    Scaled.value ⟨natOfDigits (whole ++ cutFraction fraction),
        0 - ((cutFraction fraction).length : Int)⟩ =
      Scaled.value ⟨natOfDigits (whole ++ fraction), 0 - (fraction.length : Int)⟩ := by
  obtain ⟨n, hsplit⟩ := exists_endZeros fraction
  rw [cutFraction]
  cases hcut : dropEndWhile (· == '0') fraction with
  | nil =>
      rw [hcut] at hsplit
      have hone := value_append_zeros whole [] 1
      have hall := value_append_zeros whole [] n
      rw [← hsplit] at hall
      exact hone.trans hall.symm
  | cons d ds =>
      rw [hcut] at hsplit
      have hall := value_append_zeros whole (d :: ds) n
      rw [← hsplit] at hall
      exact hall.symm

/-- Digits are neither a point nor the mark of an exponent. -/
lemma notMem_of_isDigit {t : Text} (h : ∀ c ∈ t, isDigit c = true) : '.' ∉ t ∧ 'e' ∉ t :=
  ⟨fun hmem => absurd (h _ hmem) (by decide), fun hmem => absurd (h _ hmem) (by decide)⟩

/-- A text without a point keeps its zeros, and so does one with an exponent. -/
lemma dropEndZeros_eq_self {t : Text} (h : '.' ∉ t ∨ 'e' ∈ t) : dropEndZeros t = t := by
  rw [dropEndZeros, if_neg]
  simp only [Bool.and_eq_true, Bool.not_eq_true', List.contains_eq_mem,
    decide_eq_false_iff_not, decide_eq_true_eq]
  tauto

/-- Zeros are cut off the end of a fraction. -/
lemma dropEndZeros_point {front fraction : Text} (hfront : 'e' ∉ front)
    (hfraction : ∀ c ∈ fraction, isDigit c = true) :
    dropEndZeros (front ++ '.' :: fraction) = front ++ '.' :: cutFraction fraction := by
  have hpoint : (front ++ '.' :: fraction).contains '.' = true := by simp
  have hmark : (front ++ '.' :: fraction).contains 'e' = false := by
    simpa [hfront] using (notMem_of_isDigit hfraction).2
  rw [dropEndZeros, hpoint, hmark, Bool.not_false, Bool.and_true, if_pos rfl,
    dropEndWhile_append_cons (by decide), cutFraction]
  cases hcut : dropEndWhile (· == '0') fraction with
  | nil => simp
  | cons d ds =>
      have hlast : (front ++ '.' :: d :: ds).getLast? ≠ some '.' := by
        rw [List.getLast?_append_cons, List.getLast?_cons_cons]
        intro heq
        have hmem : '.' ∈ dropEndWhile (· == '0') fraction :=
          hcut ▸ List.mem_of_getLast? heq
        exact (notMem_of_isDigit hfraction).1 (dropEndWhile_subset _ _ hmem)
      simp only [beq_iff_eq, if_neg hlast]

/-- Without zeros at its end, the text of a numeral is that of a numeral of the same value. -/
lemma dropEndZeros_numeral (negative : Bool) {n : Numeral} (h : n.WellFormed) :
    ∃ m : Numeral, m.WellFormed ∧ m.scaled.value = n.scaled.value ∧
      dropEndZeros (signText negative ++ n.text) = signText negative ++ m.text := by
  obtain ⟨whole, fraction, exponent⟩ := n
  have hsign : '.' ∉ signText negative ∧ 'e' ∉ signText negative := by
    cases negative <;> decide
  obtain ⟨hpoint, hmark⟩ := notMem_of_isDigit h.whole.1
  cases exponent with
  | some e =>
      refine ⟨_, h, rfl, dropEndZeros_eq_self (.inr ?_)⟩
      simp [Numeral.text, exponentPart, Json.exponentText_eq]
  | none =>
      cases fraction with
      | nil =>
          refine ⟨_, h, rfl, dropEndZeros_eq_self (.inl ?_)⟩
          simpa [Numeral.text, exponentPart, fractionPart, hsign.1] using hpoint
      | cons d ds =>
          have hcut : cutFraction (d :: ds) ≠ [] := by
            rw [cutFraction]
            split <;> exact List.cons_ne_nil _ _
          refine ⟨⟨whole, cutFraction (d :: ds), none⟩,
            ⟨h.whole, isDigit_cutFraction h.fraction⟩, value_cutFraction whole _, ?_⟩
          have hfront : 'e' ∉ signText negative ++ whole :=
            fun hmem => (List.mem_append.mp hmem).elim hsign.2 hmark
          rw [Numeral.text, Numeral.text, fractionPart_of_ne_nil hcut]
          simpa [exponentPart, fractionPart] using dropEndZeros_point hfront h.fraction

/-! ### Arguments for numbers -/

lemma ofInt_signed (negative : Bool) (k : Nat) :
    Text.ofInt (if negative then -(k : Int) else k) =
      signText (negative && decide (0 < k)) ++ Text.ofNat k := by
  rw [Json.ofInt_eq]
  cases negative with
  | false =>
      have hsign : decide ((k : Int) < 0) = false := decide_eq_false (by omega)
      simp [hsign]
  | true => simp

/-- The argument for a finite number: its digits if it is a small integer, or else its text. -/
lemma numberArgument_finite (negative : Bool) (place : Fin magnitudeCount) :
    numberArgument (.finite negative place) =
      if (magnitudeRatio place).1 % (magnitudeRatio place).2 = 0 ∧
          (magnitudeRatio place).1 / (magnitudeRatio place).2 < integerLimit then
        signText (negative && decide (0 < (magnitudeRatio place).1 / (magnitudeRatio place).2)) ++
          Text.ofNat ((magnitudeRatio place).1 / (magnitudeRatio place).2)
      else dropEndZeros (Binary64.finite negative place).text := by
  rw [numberArgument, Binary64.truncate?, Binary64.isIntegral]
  dsimp only
  by_cases hwhole : (magnitudeRatio place).1 % (magnitudeRatio place).2 = 0
  · have hsize : ∀ k : Nat, (if negative then -(k : Int) else k).natAbs = k := by
      intro k
      split_ifs <;> simp
    rw [beq_iff_eq.mpr hwhole]
    simp only [hwhole, true_and, ofInt_signed, hsize]
  · rw [beq_eq_false_iff_ne.mpr hwhole]
    simp only [hwhole, false_and, if_false]

/-- The argument for a finite number is a numeral that denotes it, but zero loses its sign. -/
lemma exists_numeral (negative : Bool) (place : Fin magnitudeCount) :
    ∃ (sign : Bool) (n : Numeral),
      numberArgument (.finite negative place) = signText sign ++ n.text ∧ n.WellFormed ∧
        scaledPlace n.scaled = place ∧ (sign = negative ∨ place.val = 0) := by
  rw [numberArgument_finite]
  split_ifs with hinteger
  · -- the quotient leaves no rest, so its digits have the value of the magnitude
    set k := (magnitudeRatio place).1 / (magnitudeRatio place).2 with hk
    have hvalue : (k : ℚ) = magnitude place := by
      rw [← magnitude_eq_ratio, hk, Nat.cast_div (Nat.dvd_of_mod_eq_zero hinteger.1)]
      exact_mod_cast (magnitudeRatio_pos place).ne'
    have hscaled : (⟨Text.ofNat k, [], none⟩ : Numeral).scaled = ⟨k, 0⟩ := by
      rw [Numeral.scaled, List.append_nil, natOfDigits_ofNat]
      rfl
    refine ⟨negative && decide (0 < k), ⟨Text.ofNat k, [], none⟩, ?_,
      ⟨isWhole_ofNat k, List.forall_mem_nil _⟩, ?_, ?_⟩
    · simp [Numeral.text, fractionPart, exponentPart]
    · rw [hscaled]
      by_cases hzero : place.val = 0
      · rw [hzero, magnitude_zero, Nat.cast_eq_zero] at hvalue
        rw [hzero, scaledPlace, if_pos (.inl hvalue)]
      · refine scaledPlace_of_value hzero place.isLt ?_
        rw [Scaled.value, zpow_zero, mul_one, hvalue]
    · by_cases hzero : place.val = 0
      · exact .inr hzero
      · have hpos : 0 < k := by
          exact_mod_cast (magnitude_pos hzero).trans_eq hvalue.symm
        exact .inl (by rw [decide_eq_true hpos, Bool.and_true])
  · obtain ⟨m, hm, hvalue, htext⟩ :=
      dropEndZeros_numeral negative (magnitudeNumeral_wellFormed place)
    refine ⟨negative, m, by rw [text_finite, htext], hm, ?_, .inl rfl⟩
    rw [scaledPlace_congr hvalue, magnitudeNumeral, scaledPlace_congr (numeral_value _ _),
      scaledPlace_shortest place.isLt]

lemma numberArgument_subset_scaleAlphabet (negative : Bool) (place : Fin magnitudeCount) :
    numberArgument (.finite negative place) ⊆ scaleAlphabet := by
  obtain ⟨sign, n, hn, hwell, -⟩ := exists_numeral negative place
  rw [hn]
  exact List.append_subset.mpr ⟨signText_subset sign, hwell.text_subset⟩

/-- The argument for a number is read as that number. -/
lemma readNumber?_numberArgument (negative : Bool) (place : Fin magnitudeCount) :
    ∃ sign, readNumber? (numberArgument (.finite negative place)) = some (.finite sign place) ∧
      (sign = negative ∨ place.val = 0) := by
  obtain ⟨sign, n, hn, hwell, hplace, hsign⟩ := exists_numeral negative place
  refine ⟨sign, ?_, hsign⟩
  rw [hn, readNumber?_numeral sign hwell, ofScaled_eq_ofPlace, hplace, Binary64.ofPlace,
    dif_pos place.isLt]

/-- The finite numbers that are the same: only zero may differ in its sign. -/
lemma same_finite_iff (negative : Bool) (place : Fin magnitudeCount) (y : Binary64) :
    y.same (.finite negative place) = true ↔
      ∃ sign, y = .finite sign place ∧ (sign = negative ∨ place.val = 0) := by
  have hlt := place.isLt
  cases y with
  | nan => simp [Binary64.same, Binary64.order?]
  | infinity sign =>
      cases sign <;> cases negative <;> simp [Binary64.same, Binary64.order?] <;> omega
  | finite sign q =>
      simp only [Binary64.same, Binary64.order?, beq_iff_eq, Binary64.finite.injEq]
      constructor
      · intro heq
        have hq : q = place := by
          refine Fin.ext ?_
          cases sign <;> cases negative <;> simp at heq <;> omega
        refine ⟨sign, ⟨rfl, hq⟩, ?_⟩
        cases sign <;> cases negative <;> simp at heq ⊢ <;> omega
      · rintro ⟨_, ⟨rfl, rfl⟩, rfl | hzero⟩
        · rfl
        · simp [hzero]

/-- Numbers that are the same have one argument. -/
lemma numberArgument_congr {negative : Bool} {place : Fin magnitudeCount} {y : Binary64}
    (h : y.same (.finite negative place) = true) :
    numberArgument y = numberArgument (.finite negative place) := by
  obtain ⟨sign, rfl, rfl | hzero⟩ := (same_finite_iff negative place y).mp h
  · rfl
  · -- the integer zero has no sign
    have hnum : (magnitudeRatio 0).1 = 0 := rfl
    simp [numberArgument_finite, hzero, hnum, integerLimit]

/-! ### Scales -/

/-- A word with one of these letters is no numeral, in whatever case the letter was. -/
lemma readNumber?_of_foldWord {t : Text} {d : Char} (hd : d ∈ "ou".toList)
    (h : d ∈ foldWord t) : readNumber? t = none := by
  obtain ⟨c, hc, hfold⟩ := List.mem_map.mp h
  refine readNumber_eq_none (isForeign_of_mem ?_) hc
  rw [lowerChar, smallLetter] at hfold
  split_ifs at hfold with hlong hkelvin hcapital
  · exact absurd (hfold ▸ hd) (by decide)
  · exact absurd (hfold ▸ hd) (by decide)
  · have hletters : ∀ n < 91, 65 ≤ n → Char.ofNat (n + 32) ∈ "ou".toList →
        Char.ofNat n ∈ ">oOuU".toList := by decide
    rw [Bool.and_eq_true, decide_eq_true_eq, decide_eq_true_eq] at hcapital
    have hmem := hletters c.toNat (Nat.lt_succ_of_le hcapital.2) hcapital.1 (hfold ▸ hd)
    rwa [Char.ofNat_toNat] at hmem
  · have hsmall : "ou".toList ⊆ ">oOuU".toList := by decide
    exact hfold ▸ hsmall hd

/-- A scale that denotes a finite number is none of the words. -/
lemma scaleArgument_of_number {raw : Text} {x : Binary64} (h : readNumber? raw.trim = some x)
    (hx : x.isFinite = true) : scaleArgument raw = numberArgument x := by
  have hword : ∀ {d : Char}, d ∈ "ou".toList → d ∉ foldWord raw.trim := fun hd hmem =>
    Option.some_ne_none x (h.symm.trans (readNumber?_of_foldWord hd hmem))
  have hnone : foldWord raw.trim ≠ "none".toList := fun heq =>
    hword (d := 'o') (by decide) (heq ▸ by decide)
  have hauto : foldWord raw.trim ≠ "auto".toList := fun heq =>
    hword (d := 'u') (by decide) (heq ▸ by decide)
  have hempty : readNumber? [] = none := by decide
  have hfilled : raw.trim ≠ [] := fun heq => Option.some_ne_none x (h.symm.trans (heq ▸ hempty))
  rw [scaleArgument, if_neg (by simpa [hfilled] using hnone), if_neg hauto, h]
  exact if_pos hx

/-- An argument that is neither a word nor a string comes from a finite number. -/
lemma exists_number_of_scaleArgument {raw : Text} (hnone : scaleArgument raw ≠ "none".toList)
    (hauto : scaleArgument raw ≠ "auto".toList)
    (hstring : ∀ t, scaleArgument raw ≠ stringLiteral t) :
    ∃ negative place, readNumber? raw.trim = some (.finite negative place) := by
  rw [scaleArgument] at hnone hauto hstring
  split_ifs at hnone hauto hstring
  · exact absurd rfl hnone
  · exact absurd rfl hauto
  · cases hread : readNumber? raw.trim with
    | none =>
        rw [hread] at hstring
        exact absurd rfl (hstring _)
    | some x =>
        rw [hread] at hstring
        cases x with
        | finite negative place => exact ⟨negative, place, rfl⟩
        | nan => exact absurd rfl (hstring _)
        | infinity negative => exact absurd rfl (hstring _)

/-- No space is part of an argument that is a number. -/
lemma trim_of_subset {t : Text} (h : t ⊆ scaleAlphabet) : t.trim = t := by
  have hspace : ∀ c ∈ scaleAlphabet, isSpace c = false :=
    List.forall_iff_forall_mem.mp (by decide)
  exact trimBy_eq_self (fun c hc => hspace c (h (List.mem_of_mem_head? hc)))
    fun c hc => hspace c (h (List.mem_of_mem_getLast? hc))

/-- A scale whose argument is neither a word nor a string denotes a finite number, and its argument
is canonical: it is read as that number, it is its own argument, every scale that denotes the same
number has this argument, and it is written with digits, signs, the point and the mark of an
exponent only. -/
theorem scaleArgument_canonical (raw : Text) (hnone : scaleArgument raw ≠ "none".toList)
    (hauto : scaleArgument raw ≠ "auto".toList)
    (hstring : ∀ t, scaleArgument raw ≠ stringLiteral t) :
    ∃ x, readNumber? raw.trim = some x ∧ x.isFinite = true ∧
      (∃ y, readNumber? (scaleArgument raw) = some y ∧ y.same x = true) ∧
      scaleArgument (scaleArgument raw) = scaleArgument raw ∧
      (∀ raw' y, readNumber? raw'.trim = some y → y.same x = true →
        scaleArgument raw' = scaleArgument raw) ∧
      scaleArgument raw ⊆ scaleAlphabet := by
  obtain ⟨negative, place, hread⟩ := exists_number_of_scaleArgument hnone hauto hstring
  have hargument : scaleArgument raw = numberArgument (.finite negative place) :=
    scaleArgument_of_number hread rfl
  have hsubset := numberArgument_subset_scaleAlphabet negative place
  obtain ⟨sign, hback, hsign⟩ := readNumber?_numberArgument negative place
  have hcanonical : ∀ raw' y, readNumber? raw'.trim = some y →
      y.same (.finite negative place) = true → scaleArgument raw' = scaleArgument raw := by
    intro raw' y hread' hsame
    have hfinite : y.isFinite = true := by
      obtain ⟨sign', rfl, -⟩ := (same_finite_iff negative place y).mp hsame
      rfl
    rw [scaleArgument_of_number hread' hfinite, numberArgument_congr hsame, hargument]
  have hsame : (Binary64.finite sign place).same (.finite negative place) = true :=
    (same_finite_iff negative place _).mpr ⟨sign, rfl, hsign⟩
  refine ⟨_, hread, rfl, ⟨_, hargument ▸ hback, hsame⟩, ?_, hcanonical, hargument ▸ hsubset⟩
  -- the argument is a scale that denotes the number
  refine hcanonical _ _ ?_ hsame
  rw [hargument, trim_of_subset hsubset, hback]

/-- A sign, an underscore, spaces and zeros at either end are gone, and so is an exponent. -/
theorem scaleArgument_two_and_a_half :
    scaleArgument " +0_2.50\t".toList = "2.5".toList ∧
      scaleArgument (scaleArgument " +0_2.50\t".toList) = "2.5".toList ∧
      scaleArgument "25e-1".toList = "2.5".toList := by
  have hargument : scaleArgument " +0_2.50\t".toList = "2.5".toList := by decide +kernel
  have hsame : readNumber? (Text.trim "25e-1".toList) =
      readNumber? (Text.trim " +0_2.50\t".toList) := by decide +kernel
  have hstring : ∀ t, "2.5".toList ≠ stringLiteral t := fun t heq => by
    simp [stringLiteral] at heq
  obtain ⟨x, hread, hx, -, hstable, hunique, -⟩ :=
    scaleArgument_canonical " +0_2.50\t".toList (hargument ▸ by decide) (hargument ▸ by decide)
      (hargument ▸ hstring)
  have hself : x.same x = true := by
    cases x <;> simp_all [Binary64.isFinite, Binary64.same, Binary64.order?]
  exact ⟨hargument, hstable.trans hargument,
    (hunique _ x (hsame.trans hread) hself).trans hargument⟩

end Galley
