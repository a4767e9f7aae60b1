import Galley.Json.Reader
import Galley.Json.Writer
import Galley.Proofs.Layouts
import Galley.Proofs.Utf8
import Mathlib.Tactic

/-!
Reading written strings and numbers back.

* `readString_quotePoint`, `readString_quote`: a written string is read as that string;
* `EndsNumber`: what may stand behind a number so that it is read no further;
* `readNumber_text`: the text with the parts of a number is read as what they denote;
* `readScalar_writeReal`, `readScalar_ofInt`, `readScalar_null`, `readScalar_boolean`: written
  numbers and words are read as themselves.
-/

namespace Galley

lemma CodeText.ofText_append (s t : Text) :
    CodeText.ofText (s ++ t) = CodeText.ofText s ++ CodeText.ofText t := List.map_append

namespace Json

/-! ### Strings -/

lemma hexPoint?_hexDigit (n : Nat) : hexPoint? (.scalar (hexDigit (n % 16))) = some (n % 16) := by
  have hall : ∀ k < 16, hexPoint? (.scalar (hexDigit k)) = some k := by decide
  exact hall _ (Nat.mod_lt _ (by decide))

/-- A unit of sixteen bits comes back from its four hexadecimal digits. -/
lemma hexFour?_unitEscape {n : Nat} (h : n < 0x10000) :
    ∃ a b c d, CodeText.ofText (unitEscape n) = [.scalar '\\', .scalar 'u', a, b, c, d] ∧
      hexFour? a b c d = some n := by
  refine ⟨_, _, _, _, rfl, ?_⟩
  have hunit : ((n / 16 ^ 3 % 16 * 16 + n / 16 ^ 2 % 16) * 16 + n / 16 ^ 1 % 16) * 16 +
      n / 16 ^ 0 % 16 = n := by omega
  simp only [hexFour?, Nat.pow_eq, hexPoint?_hexDigit, Option.bind_eq_bind, Option.bind_some, hunit]

/-- How a character is written inside a string. -/
lemma quotePoint_cases (c : Char) :
    (∃ e, e ≠ 'u' ∧ shortEscape? e = some c ∧ quotePoint (.scalar c) = ['\\', e]) ∨
    (0x20 ≤ c.toNat ∧ c ≠ '"' ∧ c ≠ '\\' ∧ quotePoint (.scalar c) = [c]) ∨
    (c.toNat < 0x10000 ∧ quotePoint (.scalar c) = unitEscape c.toNat) ∨
    (0x10000 ≤ c.toNat ∧ quotePoint (.scalar c) =
      unitEscape (0xD800 + (c.toNat - 0x10000) / 1024) ++
        unitEscape (0xDC00 + (c.toNat - 0x10000) % 1024)) := by
  unfold quotePoint
  split
  case h_1 heq | h_2 heq | h_3 heq | h_4 heq | h_5 heq | h_6 heq | h_7 heq =>
    obtain rfl := CodePoint.scalar.inj heq
    exact .inl ⟨_, by decide, rfl, rfl⟩
  case h_8 c' hquote hback _ _ _ _ _ heq =>
    obtain rfl := CodePoint.scalar.inj heq
    dsimp only
    split_ifs with hplain hunit
    · rw [Bool.and_eq_true, decide_eq_true_eq] at hplain
      exact .inr (.inl ⟨hplain.1, hquote, hback, rfl⟩)
    · exact .inr (.inr (.inl ⟨hunit, rfl⟩))
    · exact .inr (.inr (.inr ⟨Nat.le_of_not_lt hunit, rfl⟩))
  case h_9 heq => exact absurd heq (by simp)

/-- A code point is put in front of the string that is read. -/
def withPoint (c : CodePoint) (result : Except Failure (CodeText × CodeText)) :
    Except Failure (CodeText × CodeText) :=
  result.map fun (text, rest) => (c :: text, rest)

lemma bind_eq_withPoint (c : CodePoint) (result : Except Failure (CodeText × CodeText)) :
    (do let (text, rest) ← result; .ok (c :: text, rest)) = withPoint c result := by
  cases result <;> rfl

section Steps

variable (opening : Nat) {rest : CodeText}

/-- A unit that opens no pair is a code point. -/
lemma readString_unit {n : Nat} (h : n < 0x10000) (hunit : isHighSurrogate n = false)
    (hrest : rest ≠ []) :
    readString opening (CodeText.ofText (unitEscape n) ++ rest) =
      withPoint (.ofNat n) (readString opening rest) := by
  obtain ⟨a, b, c, d, hescape, hfour⟩ := hexFour?_unitEscape h
  have hempty : rest.isEmpty = false := by simpa using hrest
  rw [hescape, ← bind_eq_withPoint]
  simp only [List.cons_append, List.nil_append]
  rw [readString.eq_def]
  simp [hfour, hempty, hunit]

/-- Two units that make a pair are one code point. -/
lemma readString_pair {m n : Nat} (hm : isHighSurrogate m = true) (hn : isLowSurrogate n = true)
    (hrest : rest ≠ []) :
    readString opening (CodeText.ofText (unitEscape m ++ unitEscape n) ++ rest) =
      withPoint (.ofNat (0x10000 + (m - 0xD800) * 1024 + (n - 0xDC00)))
        (readString opening rest) := by
  have hmlt : m < 0x10000 := by
    simp only [isHighSurrogate, Bool.and_eq_true, decide_eq_true_eq] at hm
    omega
  have hnlt : n < 0x10000 := by
    simp only [isLowSurrogate, Bool.and_eq_true, decide_eq_true_eq] at hn
    omega
  obtain ⟨a, b, c, d, hescape, hfour⟩ := hexFour?_unitEscape hmlt
  obtain ⟨e, f, g, h, hescape', hfour'⟩ := hexFour?_unitEscape hnlt
  obtain ⟨i, more, rfl⟩ := List.exists_cons_of_ne_nil hrest
  rw [CodeText.ofText_append, hescape, hescape', ← bind_eq_withPoint]
  simp only [List.cons_append, List.nil_append]
  rw [readString.eq_def]
  simp [hfour, hfour', hm, hn]

/-- A short escape is the character that it stands for. -/
lemma readString_short {c e : Char} (hu : c ≠ 'u') (h : shortEscape? c = some e) :
    readString opening (.scalar '\\' :: .scalar c :: rest) =
      withPoint (.scalar e) (readString opening rest) := by
  rw [readString.eq_def, ← bind_eq_withPoint]
  simp [h, hu]

/-- Other characters stand for themselves. -/
lemma readString_plain {c : Char} (hc : 0x20 ≤ c.toNat) (hquote : c ≠ '"') (hback : c ≠ '\\') :
    readString opening (.scalar c :: rest) = withPoint (.scalar c) (readString opening rest) := by
  have hvalue : ¬ (CodePoint.scalar c).value < 0x20 := Nat.not_lt.mpr hc
  rw [readString.eq_def, ← bind_eq_withPoint]
  simp [hquote, hback, hvalue]

/-- A written character is read as that character. -/
lemma readString_quotePoint (c : Char) (hrest : rest ≠ []) :
    readString opening (CodeText.ofText (quotePoint (.scalar c)) ++ rest) =
      withPoint (.scalar c) (readString opening rest) := by
  have hvalid : c.toNat < 0xD800 ∨ 0xDFFF < c.toNat ∧ c.toNat < 0x110000 := c.valid
  rcases quotePoint_cases c with ⟨e, hu, hshort, hpoint⟩ | ⟨hlow, hquote, hback, hpoint⟩ |
      ⟨hunit, hpoint⟩ | ⟨hlarge, hpoint⟩
  · rw [hpoint]
    exact readString_short opening hu hshort
  · rw [hpoint]
    exact readString_plain opening hlow hquote hback
  · have hopens : isHighSurrogate c.toNat = false := by
      rw [isHighSurrogate, Bool.and_eq_false_iff, decide_eq_false_iff_not,
        decide_eq_false_iff_not]
      omega
    rw [hpoint, readString_unit opening hunit hopens hrest, CodePoint.ofNat_toNat]
  · -- the halves of the pair are put together again
    have hfirst : isHighSurrogate (0xD800 + (c.toNat - 0x10000) / 1024) = true := by
      rw [isHighSurrogate, Bool.and_eq_true, decide_eq_true_eq, decide_eq_true_eq]
      omega
    have hsecond : isLowSurrogate (0xDC00 + (c.toNat - 0x10000) % 1024) = true := by
      rw [isLowSurrogate, Bool.and_eq_true, decide_eq_true_eq, decide_eq_true_eq]
      omega
    have hwhole : 0x10000 + (0xD800 + (c.toNat - 0x10000) / 1024 - 0xD800) * 1024 +
        (0xDC00 + (c.toNat - 0x10000) % 1024 - 0xDC00) = c.toNat := by omega
    rw [hpoint, readString_pair opening hfirst hsecond hrest, hwhole, CodePoint.ofNat_toNat]

end Steps

/-- A written string is read as that string. -/
lemma readString_quote (opening : Nat) (t : Text) (rest : CodeText) :
    readString opening (CodeText.ofText ((CodeText.ofText t).flatMap quotePoint) ++
      .scalar '"' :: rest) = .ok (CodeText.ofText t, rest) := by
  induction t with
  | nil => simp [CodeText.ofText, readString]
  | cons c t ih =>
      have hmore : CodeText.ofText ((CodeText.ofText t).flatMap quotePoint) ++
          .scalar '"' :: rest ≠ [] := by simp
      have hcons : CodeText.ofText (c :: t) = .scalar c :: CodeText.ofText t := rfl
      rw [hcons, List.flatMap_cons, CodeText.ofText_append, List.append_assoc,
        readString_quotePoint opening c hmore, ih]
      rfl

/-! ### Numbers -/

/-- Digits that stand in front are read no further. -/
def EndsDigits (rest : CodeText) : Prop := ∀ c ∈ rest.head?, c.satisfies isDigit = false

/-- A number that stands in front is read no further. -/
structure EndsNumber (rest : CodeText) : Prop where
  digits : EndsDigits rest
  point : ∀ more, rest ≠ .scalar '.' :: more
  mark : ∀ c more, rest = .scalar c :: more → (c == 'e' || c == 'E') = false

lemma endsDigits_cons {c : Char} (h : isDigit c = false) (rest : CodeText) :
    EndsDigits (.scalar c :: rest) := by
  intro d hd
  obtain rfl := Option.some.inj hd
  exact h

lemma endsNumber_nil : EndsNumber [] :=
  ⟨fun _ h => absurd h (by simp), fun _ => by simp, fun _ _ h => absurd h (by simp)⟩

lemma endsNumber_cons {c : Char} (hdigit : isDigit c = false) (hpoint : c ≠ '.')
    (hmark : (c == 'e' || c == 'E') = false) (rest : CodeText) :
    EndsNumber (.scalar c :: rest) := by
  refine ⟨endsDigits_cons hdigit rest, fun more h => ?_, fun d more h => ?_⟩
  · exact hpoint (CodePoint.scalar.inj (List.cons.inj h).1)
  · rwa [← CodePoint.scalar.inj (List.cons.inj h).1]

lemma takeDigits_append {ds : Text} {rest : CodeText} (hdigits : ∀ c ∈ ds, isDigit c = true)
    (hrest : EndsDigits rest) : takeDigits (CodeText.ofText ds ++ rest) = (ds, rest) := by
  have hall : ∀ c ∈ CodeText.ofText ds, c.satisfies isDigit = true := by
    intro c hc
    obtain ⟨d, hd, rfl⟩ := List.mem_map.mp hc
    exact hdigits d hd
  obtain ⟨htake, hdrop⟩ := span_append hall hrest
  have htext : CodeText.toText (CodeText.ofText ds) = ds := by
    rw [CodeText.toText, CodeText.ofText, List.map_map]
    exact List.map_id ds
  rw [takeDigits, htake, hdrop, htext]

lemma takeWhole_append {whole : Text} {rest : CodeText} (h : IsWhole whole)
    (hrest : EndsDigits rest) : takeWhole (CodeText.ofText whole ++ rest) = (whole, rest) := by
  rcases h.2 with rfl | ⟨d, ds, rfl, hd⟩
  · rfl
  · have htake := takeDigits_append h.1 hrest
    have hhead : ∀ more, CodeText.ofText (d :: ds) ++ rest ≠ .scalar '0' :: more := by
      intro more heq
      exact hd (CodePoint.scalar.inj (List.cons.inj heq).1)
    rw [takeWhole.eq_def]
    split
    · rename_i more heq
      exact absurd heq (hhead more)
    · exact htake

lemma takeFraction_append {fraction : Text} {rest : CodeText}
    (h : ∀ c ∈ fraction, isDigit c = true) (hrest : EndsDigits rest)
    (hpoint : ∀ more, rest ≠ .scalar '.' :: more) :
    takeFraction (CodeText.ofText (fractionPart fraction) ++ rest) = (fraction, rest) := by
  cases fraction with
  | nil =>
      change takeFraction rest = ([], rest)
      rw [takeFraction.eq_def]
      split
      · rename_i more
        exact absurd rfl (hpoint more)
      · rfl
  | cons d ds =>
      have htake := takeDigits_append h hrest
      change takeFraction (.scalar '.' :: (CodeText.ofText (d :: ds) ++ rest)) = _
      rw [takeFraction, htake]
      rfl

/-- The digits of an exponent: at least two of them. -/
def exponentDigits (e : Int) : Text :=
  if (Text.ofNat e.natAbs).length < 2 then '0' :: Text.ofNat e.natAbs else Text.ofNat e.natAbs

/-- An exponent is its mark, a sign and digits. -/
lemma exponentText_eq (e : Int) :
    exponentText e = 'e' :: (if e < 0 then '-' else '+') :: exponentDigits e := rfl

lemma exponentDigits_spec (e : Int) :
    exponentDigits e ≠ [] ∧ (∀ c ∈ exponentDigits e, isDigit c = true) ∧
      natOfDigits (exponentDigits e) = e.natAbs := by
  have hdigits : ∀ c ∈ Text.ofNat e.natAbs, isDigit c = true := fun c => isDigit_ofNat
  rw [exponentDigits]
  split_ifs
  · refine ⟨List.cons_ne_nil _ _, ?_, natOfDigits_ofNat _⟩
    rintro c (_ | ⟨_, hc⟩)
    · rfl
    · exact hdigits c hc
  · exact ⟨ofNat_ne_nil _, hdigits, natOfDigits_ofNat _⟩

lemma takeExponent_append (e : Option Int) {rest : CodeText} (hrest : EndsNumber rest) :
    takeExponent (CodeText.ofText (exponentPart e) ++ rest) = (e, rest) := by
  cases e with
  | none =>
      change takeExponent rest = (none, rest)
      rw [takeExponent.eq_def]
      split
      · rename_i c more
        rw [if_neg (Bool.eq_false_iff.mp (hrest.mark c more rfl))]
      · rfl
  | some e =>
      obtain ⟨hne, hdigits, hvalue⟩ := exponentDigits_spec e
      have htake := takeDigits_append hdigits hrest.digits
      have hempty : (exponentDigits e).isEmpty = false := by simpa using hne
      rcases lt_or_ge e 0 with hneg | hpos
      · have htext : CodeText.ofText (exponentPart (some e)) ++ rest =
            .scalar 'e' :: .scalar '-' :: (CodeText.ofText (exponentDigits e) ++ rest) := by
          rw [exponentPart, exponentText_eq, if_pos hneg]
          rfl
        have hsign : -((e.natAbs : Nat) : Int) = e := by omega
        rw [htext, takeExponent]
        simp only [htake, hempty, hvalue, hsign]
        rfl
      · have htext : CodeText.ofText (exponentPart (some e)) ++ rest =
            .scalar 'e' :: .scalar '+' :: (CodeText.ofText (exponentDigits e) ++ rest) := by
          rw [exponentPart, exponentText_eq, if_neg (not_lt.mpr hpos)]
          rfl
        have hsign : ((e.natAbs : Nat) : Int) = e := by omega
        rw [htext, takeExponent]
        simp only [htake, hempty, hvalue, hsign]
        rfl

lemma endsDigits_exponentPart (e : Option Int) {rest : CodeText} (hrest : EndsNumber rest) :
    EndsDigits (CodeText.ofText (exponentPart e) ++ rest) ∧
      ∀ more, CodeText.ofText (exponentPart e) ++ rest ≠ .scalar '.' :: more := by
  cases e with
  | none => exact ⟨hrest.digits, hrest.point⟩
  | some e =>
      refine ⟨endsDigits_cons (c := 'e') (by decide) _, fun more h => ?_⟩
      exact absurd (CodePoint.scalar.inj (List.cons.inj h).1) (by decide)

lemma endsDigits_fractionPart (fraction : Text) {rest : CodeText} (hrest : EndsDigits rest) :
    EndsDigits (CodeText.ofText (fractionPart fraction) ++ rest) := by
  cases fraction with
  | nil => exact hrest
  | cons d ds => exact endsDigits_cons (c := '.') (by decide) _

section Numbers

variable (start : CodeText) (negative : Bool) {rest : CodeText} (hrest : EndsNumber rest)

include hrest

/-- The text with the parts of a number is read as what they denote. -/
lemma readNumber_text {n : Numeral} (hn : n.WellFormed)
    (hreal : n.fraction ≠ [] ∨ n.exponent.isSome) :
    readNumber start negative (CodeText.ofText n.text ++ rest) =
      .ok (.real (.ofScaled negative n.scaled.digits n.scaled.exponent), rest) := by
  obtain ⟨hends, hpoint⟩ := endsDigits_exponentPart n.exponent hrest
  have hne : n.whole.isEmpty = false := by simpa using hn.whole.ne_nil
  have hkind : (n.fraction.isEmpty && n.exponent.isNone) = false := by
    rcases hreal with hfraction | hexponent
    · simp [hfraction]
    · obtain ⟨e, he⟩ := Option.isSome_iff_exists.mp hexponent
      simp [he]
  rw [Numeral.text, List.append_assoc, CodeText.ofText_append, CodeText.ofText_append,
    List.append_assoc, List.append_assoc, readNumber,
    takeWhole_append hn.whole (endsDigits_fractionPart n.fraction hends)]
  simp only [hne, takeFraction_append hn.fraction hends hpoint, takeExponent_append _ hrest, hkind]
  rfl

/-- Digits alone are read as an integer, unless there are too many of them. -/
lemma readNumber_whole {whole : Text} (h : IsWhole whole)
    (hlength : whole.length ≤ maxIntegerDigits) :
    readNumber start negative (CodeText.ofText whole ++ rest) =
      .ok (.integer (if negative then -(natOfDigits whole : Int) else natOfDigits whole),
        rest) := by
  have hne : whole.isEmpty = false := by simpa using h.ne_nil
  have hfraction : takeFraction rest = ([], rest) :=
    takeFraction_append (List.forall_mem_nil _) hrest.digits hrest.point
  have hexponent : takeExponent rest = (none, rest) := takeExponent_append none hrest
  rw [readNumber, takeWhole_append h hrest.digits]
  simp only [hne, hfraction, hexponent, Nat.not_lt.mpr hlength]
  rfl

end Numbers

/-! ### Words and numbers -/

/-- No word begins with a digit, and none with a minus in front of a digit. -/
lemma find_words_digit {d : Char} (h : isDigit d = true) (more : CodeText) :
    (words.find? fun (word, _) => (CodeText.ofText word).isPrefixOf (.scalar d :: more)) = none ∧
    (words.find? fun (word, _) => (CodeText.ofText word).isPrefixOf
      (.scalar '-' :: .scalar d :: more)) = none := by
  have hmem := mem_digitAlphabet h
  have hten : ∀ c ∈ digitAlphabet, c ≠ 'n' ∧ c ≠ 't' ∧ c ≠ 'f' ∧ c ≠ 'N' ∧ c ≠ 'I' ∧ c ≠ '-' :=
    List.forall_iff_forall_mem.mp (by decide)
  obtain ⟨hn, ht, hf, hN, hI, hminus⟩ := hten d hmem
  constructor <;>
    simp [words, CodeText.ofText, List.isPrefixOf, hn.symm, ht.symm, hf.symm, hN.symm, hI.symm,
      hminus.symm]

/-- A sign with digits behind it begins a number. -/
lemma readScalar_signed (negative : Bool) {t : Text} (h : ∃ d ds, t = d :: ds ∧ isDigit d = true)
    (rest : CodeText) :
    ∃ start, readScalar (CodeText.ofText (signText negative ++ t) ++ rest) =
      readNumber start negative (CodeText.ofText t ++ rest) := by
  obtain ⟨d, ds, rfl, hd⟩ := h
  have hminus : d ≠ '-' := by
    rintro rfl
    exact absurd hd (by decide)
  obtain ⟨hplain, hsigned⟩ := find_words_digit hd (CodeText.ofText ds ++ rest)
  cases negative with
  | false =>
      refine ⟨.scalar d :: (CodeText.ofText ds ++ rest), ?_⟩
      change readScalar (.scalar d :: (CodeText.ofText ds ++ rest)) = _
      rw [readScalar, hplain]
      · rfl
      · intro more heq
        exact hminus (CodePoint.scalar.inj (List.cons.inj heq).1)
  | true =>
      refine ⟨.scalar '-' :: .scalar d :: (CodeText.ofText ds ++ rest), ?_⟩
      change readScalar (.scalar '-' :: .scalar d :: (CodeText.ofText ds ++ rest)) = _
      rw [readScalar, hsigned]
      rfl

lemma writeReal_finite (negative : Bool) (place : Fin magnitudeCount) :
    writeReal (.finite negative place) =
      signText negative ++ (magnitudeNumeral place).text := by
  rw [writeReal, text_finite]
  · simp
  · simp

/-- A written finite number is read as that number. -/
lemma readScalar_writeReal (negative : Bool) (place : Fin magnitudeCount) {rest : CodeText}
    (hrest : EndsNumber rest) :
    readScalar (CodeText.ofText (writeReal (.finite negative place)) ++ rest) =
      .ok (.real (.finite negative place), rest) := by
  have hn := magnitudeNumeral_wellFormed place
  obtain ⟨d, ds, hwhole, hd⟩ := hn.whole.head
  obtain ⟨start, hstart⟩ := readScalar_signed negative
    ⟨d, _, show (magnitudeNumeral place).text = d :: _ by rw [Numeral.text, hwhole]; rfl, hd⟩ rest
  rw [writeReal_finite, hstart, readNumber_text start negative hrest hn (numeral_isReal _),
    ofScaled_magnitudeNumeral]

/-- The integer has no more digits than a numeral may have. -/
def IsShortInteger (n : Int) : Prop := n.natAbs < 10 ^ maxIntegerDigits

lemma ofInt_eq (n : Int) : Text.ofInt n = signText (n < 0) ++ Text.ofNat n.natAbs := by
  cases n with
  | ofNat n =>
      rw [decide_eq_false (by simp)]
      rfl
  | negSucc n =>
      rw [decide_eq_true (Int.negSucc_lt_zero n)]
      rfl

/-- A written integer is read as that integer. -/
lemma readScalar_ofInt {n : Int} (hn : IsShortInteger n) {rest : CodeText}
    (hrest : EndsNumber rest) :
    readScalar (CodeText.ofText (Text.ofInt n) ++ rest) = .ok (.integer n, rest) := by
  have hwhole := isWhole_ofNat n.natAbs
  have hlength : (Text.ofNat n.natAbs).length ≤ maxIntegerDigits :=
    (Nat.length_toDigits_le_iff (by decide) (by decide)).mpr hn
  have hvalue : (if (decide (n < 0)) = true then -((n.natAbs : Nat) : Int) else n.natAbs) = n := by
    split_ifs with hneg
    · rw [decide_eq_true_eq] at hneg
      omega
    · rw [decide_eq_true_eq] at hneg
      omega
  obtain ⟨start, hstart⟩ := readScalar_signed (n < 0) hwhole.head rest
  rw [ofInt_eq, hstart, readNumber_whole start _ hrest hwhole hlength, natOfDigits_ofNat, hvalue]

lemma readScalar_null (rest : CodeText) :
    readScalar (CodeText.ofText "null".toList ++ rest) = .ok (.null, rest) := rfl

lemma readScalar_boolean (b : Bool) (rest : CodeText) :
    readScalar (CodeText.ofText (if b then "true" else "false").toList ++ rest) =
      .ok (.boolean b, rest) := by
  cases b <;> rfl

end Json

end Galley
