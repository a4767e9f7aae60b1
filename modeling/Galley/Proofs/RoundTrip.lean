import Galley.Proofs.Tokens
import Galley.Proofs.Writing

/-!
Reading written values back.

* `Storable`: the values that are read back: their strings are texts, their integers short, their
  numbers finite and the keys of their objects distinct, and they are not nested too deeply;
* `skipGap_value`, `skipGap_mark`: white space in front of a value or a mark is skipped;
* `ReadsBack`: a value is read from its text, whatever stands behind it;
* `readItems_written`, `readFields_written`: so are arrays and objects of such values;
* `readsBack`, `read_write`: so is every storable value, at any indentation.
-/

namespace Galley

namespace Json

/-! ### Values that are read back -/

/-- The field with the given text as its key. -/
def namedField (field : Text × Json) : CodeText × Json := (CodeText.ofText field.1, field.2)

/-- The fields with the given texts as keys. -/
def namedFields (fields : List (Text × Json)) : List (CodeText × Json) := fields.map namedField

/-- The value is read back where there is so much room for nesting. -/
inductive Storable : Nat → Json → Prop where
  | null {room : Nat} : Storable room .null
  | boolean {room : Nat} (b : Bool) : Storable room (.boolean b)
  | integer {room : Nat} {n : Int} (h : IsShortInteger n) : Storable room (.integer n)
  | real {room : Nat} (negative : Bool) (place : Fin magnitudeCount) :
      Storable room (.real (.finite negative place))
  | string {room : Nat} (t : Text) : Storable room (.string (CodeText.ofText t))
  | array {room : Nat} {items : List Json} (h : ∀ item ∈ items, Storable room item) :
      Storable (room + 1) (.array items)
  | object {room : Nat} {fields : List (Text × Json)} (keys : (fields.map Prod.fst).Nodup)
      (h : ∀ field ∈ fields, Storable room field.2) :
      Storable (room + 1) (.object (namedFields fields))

/-! ### White space -/

lemma isGap_of_mem {c : Char} (h : c ∈ gapAlphabet) : isGap (.scalar c) = true := by
  have hall : ∀ c ∈ gapAlphabet, isGap (.scalar c) = true :=
    List.forall_iff_forall_mem.mp (by decide)
  exact hall c h

lemma skipGap_append {gap : Text} (h : IsGapText gap) (rest : CodeText) :
    skipGap (CodeText.ofText gap ++ rest) = skipGap rest := by
  refine List.dropWhile_append_of_pos fun c hc => ?_
  obtain ⟨d, hd, rfl⟩ := List.mem_map.mp hc
  exact isGap_of_mem (h hd)

lemma skipGap_cons {c : Char} (h : isGap (.scalar c) = false) (rest : CodeText) :
    skipGap (.scalar c :: rest) = .scalar c :: rest :=
  List.dropWhile_cons_of_neg (by simp [h])

lemma gap_ends {c : Char} (h : c ∈ gapAlphabet) :
    isDigit c = false ∧ c ≠ '.' ∧ (c == 'e' || c == 'E') = false := by
  have hall : ∀ c ∈ gapAlphabet,
      isDigit c = false ∧ c ≠ '.' ∧ (c == 'e' || c == 'E') = false :=
    List.forall_iff_forall_mem.mp (by decide)
  exact hall c h

/-- White space and marks end numbers. -/
lemma endsNumber_gap {gap : Text} (h : IsGapText gap) {c : Char} (hdigit : isDigit c = false)
    (hpoint : c ≠ '.') (hmark : (c == 'e' || c == 'E') = false) (rest : CodeText) :
    EndsNumber (CodeText.ofText gap ++ .scalar c :: rest) := by
  cases gap with
  | nil => exact endsNumber_cons hdigit hpoint hmark rest
  | cons d gap =>
      obtain ⟨hdigit, hpoint, hmark⟩ := gap_ends (h List.mem_cons_self)
      exact endsNumber_cons hdigit hpoint hmark _

/-! ### The start of a value -/

/-- A number begins with a minus or a digit. -/
lemma signed_head (negative : Bool) {t : Text} (h : ∃ d ds, t = d :: ds ∧ isDigit d = true) :
    ∃ c cs, signText negative ++ t = c :: cs ∧ c ∈ '-' :: digitAlphabet := by
  obtain ⟨d, ds, rfl, hd⟩ := h
  cases negative with
  | false => exact ⟨d, ds, rfl, List.mem_cons_of_mem _ (mem_digitAlphabet hd)⟩
  | true => exact ⟨'-', d :: ds, rfl, List.mem_cons_self⟩

lemma ofInt_head (n : Int) : ∃ c cs, Text.ofInt n = c :: cs ∧ c ∈ '-' :: digitAlphabet := by
  rw [ofInt_eq]
  exact signed_head _ (isWhole_ofNat _).head

lemma writeReal_head (negative : Bool) (place : Fin magnitudeCount) :
    ∃ c cs, writeReal (.finite negative place) = c :: cs ∧ c ∈ '-' :: digitAlphabet := by
  obtain ⟨d, ds, hwhole, hd⟩ := (magnitudeNumeral_wellFormed place).whole.head
  rw [writeReal_finite]
  exact signed_head _ ⟨d, _, by rw [Numeral.text, hwhole]; rfl, hd⟩

/-- The text of a value begins with a character that is neither white space nor the end of an
array. -/
lemma writeAt_head (indent : Option Nat) (depth : Nat) {room : Nat} {value : Json}
    (h : Storable room value) :
    ∃ c cs, writeAt indent depth value = c :: cs ∧ isGap (.scalar c) = false ∧ c ≠ ']' := by
  have hnumber : ∀ c ∈ '-' :: digitAlphabet, isGap (.scalar c) = false ∧ c ≠ ']' :=
    List.forall_iff_forall_mem.mp (by decide)
  cases h with
  | null => exact ⟨'n', _, rfl, by decide⟩
  | boolean b =>
      cases b with
      | false => exact ⟨'f', _, rfl, by decide⟩
      | true => exact ⟨'t', _, rfl, by decide⟩
  | @integer _ n h =>
      obtain ⟨c, cs, hhead, hc⟩ := ofInt_head n
      exact ⟨c, cs, hhead, hnumber c hc⟩
  | real negative place =>
      obtain ⟨c, cs, hhead, hc⟩ := writeReal_head negative place
      exact ⟨c, cs, hhead, hnumber c hc⟩
  | string t => exact ⟨'"', _, rfl, by decide⟩
  | @array room items h =>
      cases items with
      | nil => exact ⟨'[', _, rfl, by decide⟩
      | cons item items => exact ⟨'[', _, rfl, by decide⟩
  | @object room fields keys h =>
      cases fields with
      | nil => exact ⟨'\x7b', _, rfl, by decide⟩
      | cons field fields => exact ⟨'\x7b', _, rfl, by decide⟩

/-! ### Values -/

/-- A value is read from its text, whatever stands behind it. -/
def ReadsBack (indent : Option Nat) (room : Nat) (value : Json) : Prop :=
  ∀ depth fuel rest, EndsNumber rest → (writeAt indent depth value).length ≤ fuel →
    readValue fuel room (CodeText.ofText (writeAt indent depth value) ++ rest) = .ok (value, rest)

section Steps

variable {fuel room : Nat} {text rest behind after : CodeText} {value : Json}

lemma readItems_last (hvalue : readValue fuel room text = .ok (value, rest))
    (hend : skipGap rest = .scalar ']' :: behind) :
    readItems (fuel + 1) room text = .ok ([value], behind) := by
  simp only [readItems, hvalue, bind, Except.bind, hend]

lemma readItems_next {items : List Json} (hvalue : readValue fuel room text = .ok (value, rest))
    (hcomma : skipGap rest = .scalar ',' :: behind)
    (hitems : readItems fuel room (skipGap behind) = .ok (items, after)) :
    readItems (fuel + 1) room text = .ok (value :: items, after) := by
  simp only [readItems, hvalue, bind, Except.bind, hcomma, hitems]

end Steps

lemma put_of_notMem {key : CodeText} (value : Json) {fields : List (CodeText × Json)}
    (h : key ∉ fields.map Prod.fst) : put key value fields = fields ++ [(key, value)] := by
  induction fields with
  | nil => rfl
  | cons field fields ih =>
      rw [List.map_cons, List.mem_cons, not_or] at h
      rw [put, if_neg (Ne.symm h.1), ih h.2, List.cons_append]

/-- Of distinct keys the first one does not stand among those before it. -/
lemma notMem_of_nodup {field : Text × Json} {fields : List (Text × Json)}
    {before : List (CodeText × Json)}
    (h : ((before ++ namedFields (field :: fields)).map Prod.fst).Nodup) :
    CodeText.ofText field.1 ∉ before.map Prod.fst := by
  rw [List.map_append, List.nodup_append] at h
  exact fun hmem => h.2.2 _ hmem _ List.mem_cons_self rfl

section Members

variable {indent : Option Nat} {room : Nat} (depth : Nat)

variable {gap : Text} (hgap : IsGapText gap)

include hgap

/-- White space in front of a value is skipped up to the value. -/
lemma skipGap_value {value : Json} (h : Storable room value) (rest : CodeText) :
    skipGap (CodeText.ofText gap ++ (CodeText.ofText (writeAt indent depth value) ++ rest)) =
      CodeText.ofText (writeAt indent depth value) ++ rest := by
  obtain ⟨c, cs, hhead, hc, -⟩ := writeAt_head indent depth h
  rw [skipGap_append hgap, hhead]
  exact skipGap_cons hc _

/-- White space in front of a mark is skipped up to the mark. -/
lemma skipGap_mark {c : Char} (h : isGap (.scalar c) = false) (rest : CodeText) :
    skipGap (CodeText.ofText gap ++ .scalar c :: rest) = .scalar c :: rest := by
  rw [skipGap_append hgap, skipGap_cons h]

/-- By induction on the items, of which each one is read back. -/
lemma readItems_written {item : Json} {items : List Json}
    (hstorable : ∀ v ∈ items, Storable room v)
    (h : ∀ v ∈ item :: items, ReadsBack indent room v) {fuel : Nat} (rest : CodeText)
    (hfuel : (writeAt indent depth item ++ writeItems indent depth items).length < fuel) :
    readItems fuel room (CodeText.ofText (writeAt indent depth item) ++
      (CodeText.ofText (writeItems indent depth items) ++
        (CodeText.ofText gap ++ .scalar ']' :: rest))) = .ok (item :: items, rest) := by
  obtain ⟨fuel, rfl⟩ := Nat.exists_eq_succ_of_ne_zero (Nat.ne_zero_of_lt hfuel)
  have hitem := h item List.mem_cons_self depth fuel
  rw [List.length_append] at hfuel
  induction items generalizing item fuel with
  | nil =>
      have hends : EndsNumber (CodeText.ofText gap ++ .scalar ']' :: rest) :=
        endsNumber_gap hgap (by decide) (by decide) (by decide) rest
      exact readItems_last (hitem _ hends (by omega)) (skipGap_mark hgap (by decide) rest)
  | cons next items ih =>
      rw [writeItems_cons, List.length_cons, List.length_append, List.length_append] at hfuel
      have hcomma : CodeText.ofText (writeItems indent depth (next :: items)) ++
          (CodeText.ofText gap ++ .scalar ']' :: rest) =
          .scalar ',' :: (CodeText.ofText (separatorGap indent depth) ++
            (CodeText.ofText (writeAt indent depth next) ++
              (CodeText.ofText (writeItems indent depth items) ++
                (CodeText.ofText gap ++ .scalar ']' :: rest)))) := by
        rw [writeItems_cons]
        simp [CodeText.ofText]
      rw [hcomma]
      have hends := endsNumber_cons (c := ',') (by decide) (by decide) (by decide)
      obtain ⟨fuel, rfl⟩ := Nat.exists_eq_succ_of_ne_zero (show fuel ≠ 0 by omega)
      refine readItems_next (hitem _ (hends _) (by omega)) (skipGap_cons (by decide) _) ?_
      rw [skipGap_value depth (isGapText_separatorGap indent depth)
        (hstorable next List.mem_cons_self)]
      exact ih (fun v hv => hstorable v (List.mem_cons_of_mem _ hv))
        (fun v hv => h v (List.mem_cons_of_mem _ hv)) fuel (by omega)
        (h next (List.mem_cons_of_mem _ List.mem_cons_self) depth fuel)

omit hgap in
/-- The parts of a written field. -/
lemma ofText_writeMember (field : Text × Json) (rest : CodeText) :
    CodeText.ofText (writeMember indent depth (namedField field)) ++ rest =
      .scalar '"' :: (CodeText.ofText ((CodeText.ofText field.1).flatMap quotePoint) ++
        .scalar '"' :: .scalar ':' :: (CodeText.ofText [' '] ++
          (CodeText.ofText (writeAt indent depth field.2) ++ rest))) := by
  simp [writeMember, namedField, quote, CodeText.ofText]

omit hgap in
lemma length_writeAt_le (field : Text × Json) :
    (writeAt indent depth field.2).length ≤
      (writeMember indent depth (namedField field)).length := by
  rw [writeMember, List.length_append, List.length_cons, List.length_cons]
  change _ ≤ _ + ((writeAt indent depth field.2).length + 1 + 1)
  omega

section Field

variable {field : Text × Json} (hstorable : Storable room field.2)
  (h : ReadsBack indent room field.2) {fuel : Nat}
  (hfuel : (writeMember indent depth (namedField field)).length ≤ fuel)
  (before : List (CodeText × Json)) {rest behind : CodeText} (hends : EndsNumber rest)

include hstorable h hfuel hends
omit hgap

/-- A field in front of the end of an object is the last one. -/
lemma readFields_last (hend : skipGap rest = .scalar '\x7d' :: behind) :
    readFields (fuel + 1) room before
        (CodeText.ofText (writeMember indent depth (namedField field)) ++ rest) =
      .ok (put (CodeText.ofText field.1) field.2 before, behind) := by
  have hblank : IsGapText [' '] := isGapText_separatorGap none depth
  have hcolon : isGap (.scalar ':') = false := rfl
  have hread := h depth fuel rest hends ((length_writeAt_le depth field).trans hfuel)
  rw [ofText_writeMember]
  simp only [readFields, readString_quote, bind, Except.bind, skipGap_value depth hblank hstorable,
    skipGap_cons hcolon, hread, hend]

/-- Behind a field in front of a comma the reading goes on. -/
lemma readFields_next (hcomma : skipGap rest = .scalar ',' :: behind) :
    readFields (fuel + 1) room before
        (CodeText.ofText (writeMember indent depth (namedField field)) ++ rest) =
      readFields fuel room (put (CodeText.ofText field.1) field.2 before) (skipGap behind) := by
  have hblank : IsGapText [' '] := isGapText_separatorGap none depth
  have hcolon : isGap (.scalar ':') = false := rfl
  have hread := h depth fuel rest hends ((length_writeAt_le depth field).trans hfuel)
  rw [ofText_writeMember]
  simp only [readFields, readString_quote, bind, Except.bind, skipGap_value depth hblank hstorable,
    skipGap_cons hcolon, hread, hcomma]

end Field

/-- By induction on the fields, of which each value is read back. Each key is new, so its field is
added at the end of the fields that came before. -/
lemma readFields_written {field : Text × Json} {fields : List (Text × Json)}
    {before : List (CodeText × Json)}
    (hkeys : ((before ++ namedFields (field :: fields)).map Prod.fst).Nodup)
    (hstorable : ∀ f ∈ field :: fields, Storable room f.2)
    (h : ∀ f ∈ field :: fields, ReadsBack indent room f.2) {fuel : Nat} (rest : CodeText)
    (hfuel : (writeMember indent depth (namedField field) ++
      writeFields indent depth (namedFields fields)).length < fuel) :
    readFields fuel room before (CodeText.ofText (writeMember indent depth (namedField field)) ++
      (CodeText.ofText (writeFields indent depth (namedFields fields)) ++
        (CodeText.ofText gap ++ .scalar '\x7d' :: rest))) =
      .ok (before ++ namedFields (field :: fields), rest) := by
  obtain ⟨fuel, rfl⟩ := Nat.exists_eq_succ_of_ne_zero (Nat.ne_zero_of_lt hfuel)
  have hfirst := hstorable field List.mem_cons_self
  have hvalue := h field List.mem_cons_self
  rw [List.length_append] at hfuel
  induction fields generalizing field before fuel with
  | nil =>
      have hends : EndsNumber (CodeText.ofText gap ++ .scalar '\x7d' :: rest) :=
        endsNumber_gap hgap (by decide) (by decide) (by decide) rest
      have hmember : (writeMember indent depth (namedField field)).length ≤ fuel := by omega
      have hread := readFields_last depth hfirst hvalue hmember before hends
        (skipGap_mark hgap rfl rest)
      rw [put_of_notMem field.2 (notMem_of_nodup hkeys)] at hread
      exact hread
  | cons next fields ih =>
      have htext := writeFields_cons indent depth (namedField next) (namedFields fields)
      change writeFields indent depth (namedFields (next :: fields)) = _ at htext
      rw [htext, List.length_cons, List.length_append, List.length_append] at hfuel
      have hcomma : CodeText.ofText (writeFields indent depth (namedFields (next :: fields))) ++
          (CodeText.ofText gap ++ .scalar '\x7d' :: rest) =
          .scalar ',' :: (CodeText.ofText (separatorGap indent depth) ++
            (CodeText.ofText (writeMember indent depth (namedField next)) ++
              (CodeText.ofText (writeFields indent depth (namedFields fields)) ++
                (CodeText.ofText gap ++ .scalar '\x7d' :: rest)))) := by
        rw [htext]
        simp [CodeText.ofText]
      have hends := endsNumber_cons (c := ',') (by decide) (by decide) (by decide)
      have hquote (rest : CodeText) : skipGap (CodeText.ofText (separatorGap indent depth) ++
          (CodeText.ofText (writeMember indent depth (namedField next)) ++ rest)) =
          CodeText.ofText (writeMember indent depth (namedField next)) ++ rest :=
        skipGap_mark (isGapText_separatorGap indent depth) (c := '"') rfl _
      have hbehind := List.mem_cons_of_mem field (List.mem_cons_self (a := next) (l := fields))
      have hmember : (writeMember indent depth (namedField field)).length ≤ fuel := by omega
      obtain ⟨fuel, rfl⟩ := Nat.exists_eq_succ_of_ne_zero (show fuel ≠ 0 by omega)
      rw [hcomma, readFields_next depth hfirst hvalue hmember before (hends _) (skipGap_cons rfl _),
        put_of_notMem field.2 (notMem_of_nodup hkeys), hquote,
        @ih next (before ++ [(CodeText.ofText field.1, field.2)])
          (by simpa [namedFields, namedField] using hkeys)
          (fun f hf => hstorable f (List.mem_cons_of_mem _ hf))
          (fun f hf => h f (List.mem_cons_of_mem _ hf)) fuel (by omega) (hstorable next hbehind)
          (h next hbehind)]
      simp [namedFields, namedField]

end Members

/-- Numbers and words begin with other characters than strings, arrays and objects. -/
lemma readValue_scalar {c : Char} (hquote : c ≠ '"') (hbracket : c ≠ '[') (hbrace : c ≠ '\x7b')
    (fuel room : Nat) (rest : CodeText) :
    readValue (fuel + 1) room (.scalar c :: rest) = readScalar (.scalar c :: rest) := by
  rw [readValue]
  · exact fun more heq => hquote (CodePoint.scalar.inj (List.cons.inj heq).1)
  · exact fun more heq => hbracket (CodePoint.scalar.inj (List.cons.inj heq).1)
  · exact fun more heq => hbrace (CodePoint.scalar.inj (List.cons.inj heq).1)

lemma readValue_number {t : Text} (h : ∃ c cs, t = c :: cs ∧ c ∈ '-' :: digitAlphabet)
    (fuel room : Nat) (rest : CodeText) :
    readValue (fuel + 1) room (CodeText.ofText t ++ rest) =
      readScalar (CodeText.ofText t ++ rest) := by
  obtain ⟨c, cs, rfl, hc⟩ := h
  have hnumber : ∀ c ∈ '-' :: digitAlphabet, c ≠ '"' ∧ c ≠ '[' ∧ c ≠ '\x7b' :=
    List.forall_iff_forall_mem.mp (by decide)
  obtain ⟨hquote, hbracket, hbrace⟩ := hnumber c hc
  exact readValue_scalar hquote hbracket hbrace fuel room _

section Containers

variable {indent : Option Nat} {fuel room : Nat} {text rest : CodeText}

lemma readValue_array {items : List Json} (hne : ∀ behind, skipGap text ≠ .scalar ']' :: behind)
    (hitems : readItems fuel room (skipGap text) = .ok (items, rest)) :
    readValue (fuel + 1) (room + 1) (.scalar '[' :: text) = .ok (.array items, rest) := by
  rw [readValue, if_neg (Nat.succ_ne_zero room)]
  split
  · rename_i heq
    exact absurd heq (hne _)
  · rw [Nat.add_sub_cancel, hitems]
    rfl

lemma readValue_object {fields : List (CodeText × Json)}
    (hne : ∀ behind, skipGap text ≠ .scalar '\x7d' :: behind)
    (hfields : readFields fuel room [] (skipGap text) = .ok (fields, rest)) :
    readValue (fuel + 1) (room + 1) (.scalar '\x7b' :: text) = .ok (.object fields, rest) := by
  rw [readValue, if_neg (Nat.succ_ne_zero room)]
  split
  · rename_i heq
    exact absurd heq (hne _)
  · rw [Nat.add_sub_cancel, hfields]
    rfl

lemma readsBack_array {items : List Json} (hstorable : ∀ v ∈ items, Storable room v)
    (h : ∀ v ∈ items, ReadsBack indent room v) : ReadsBack indent (room + 1) (.array items) := by
  intro depth fuel rest hrest hfuel
  cases items with
  | nil =>
      obtain ⟨fuel, rfl⟩ := Nat.exists_eq_succ_of_ne_zero (Nat.ne_zero_of_lt hfuel)
      rfl
  | cons item items =>
      obtain ⟨fuel, rfl⟩ := Nat.exists_eq_succ_of_ne_zero (Nat.ne_zero_of_lt hfuel)
      have hitem := hstorable item List.mem_cons_self
      obtain ⟨c, cs, hhead, -, hc⟩ := writeAt_head indent (depth + 1) hitem
      have htext : CodeText.ofText (writeAt indent depth (.array (item :: items))) ++ rest =
          .scalar '[' :: (CodeText.ofText (breakLine indent (depth + 1)) ++
            (CodeText.ofText (writeAt indent (depth + 1) item) ++
              (CodeText.ofText (writeItems indent (depth + 1) items) ++
                (CodeText.ofText (breakLine indent depth) ++ .scalar ']' :: rest)))) := by
        rw [writeAt_array]
        simp [CodeText.ofText]
      have hgap (rest : CodeText) : skipGap (CodeText.ofText (breakLine indent (depth + 1)) ++
          (CodeText.ofText (writeAt indent (depth + 1) item) ++ rest)) =
          CodeText.ofText (writeAt indent (depth + 1) item) ++ rest :=
        skipGap_value (depth + 1) (isGapText_breakLine indent (depth + 1)) hitem rest
      rw [htext]
      refine readValue_array (fun behind heq => ?_) ?_
      · rw [hgap, hhead] at heq
        exact hc (CodePoint.scalar.inj (List.cons.inj heq).1)
      · rw [hgap]
        refine readItems_written (depth + 1) (isGapText_breakLine indent depth)
          (fun v hv => hstorable v (List.mem_cons_of_mem _ hv)) h rest ?_
        rw [writeAt_array] at hfuel
        simp only [List.length_cons, List.length_append] at hfuel ⊢
        omega

lemma readsBack_object {fields : List (Text × Json)} (hkeys : (fields.map Prod.fst).Nodup)
    (hstorable : ∀ f ∈ fields, Storable room f.2) (h : ∀ f ∈ fields, ReadsBack indent room f.2) :
    ReadsBack indent (room + 1) (.object (namedFields fields)) := by
  intro depth fuel rest hrest hfuel
  cases fields with
  | nil =>
      obtain ⟨fuel, rfl⟩ := Nat.exists_eq_succ_of_ne_zero (Nat.ne_zero_of_lt hfuel)
      rfl
  | cons field fields =>
      obtain ⟨fuel, rfl⟩ := Nat.exists_eq_succ_of_ne_zero (Nat.ne_zero_of_lt hfuel)
      have hwrite := writeAt_object indent depth (namedField field) (namedFields fields)
      change writeAt indent depth (.object (namedFields (field :: fields))) = _ at hwrite
      have htext :
          CodeText.ofText (writeAt indent depth (.object (namedFields (field :: fields)))) ++ rest =
          .scalar '\x7b' :: (CodeText.ofText (breakLine indent (depth + 1)) ++
            (CodeText.ofText (writeMember indent (depth + 1) (namedField field)) ++
              (CodeText.ofText (writeFields indent (depth + 1) (namedFields fields)) ++
                (CodeText.ofText (breakLine indent depth) ++ .scalar '\x7d' :: rest)))) := by
        rw [hwrite]
        simp [CodeText.ofText]
      have hgap (rest : CodeText) : skipGap (CodeText.ofText (breakLine indent (depth + 1)) ++
          (CodeText.ofText (writeMember indent (depth + 1) (namedField field)) ++ rest)) =
          CodeText.ofText (writeMember indent (depth + 1) (namedField field)) ++ rest :=
        skipGap_mark (isGapText_breakLine indent (depth + 1)) (c := '"') rfl _
      rw [htext]
      refine readValue_object (fun behind heq => ?_) ?_
      · rw [hgap] at heq
        exact absurd (CodePoint.scalar.inj (List.cons.inj heq).1) (by decide)
      · rw [hgap]
        have hdistinct : (([] ++ namedFields (field :: fields)).map Prod.fst).Nodup := by
          have hmap := hkeys.map (List.map_injective_iff.mpr fun _ _ => CodePoint.scalar.inj)
          rw [List.map_map] at hmap
          rwa [List.nil_append, namedFields, List.map_map]
        refine readFields_written (depth + 1) (isGapText_breakLine indent depth) hdistinct
          hstorable h rest ?_
        rw [hwrite] at hfuel
        simp only [List.length_cons, List.length_append] at hfuel ⊢
        omega

end Containers

lemma exists_fuel {t : Text} {fuel : Nat} {p : Char → Prop} (h : ∃ c cs, t = c :: cs ∧ p c)
    (hfuel : t.length ≤ fuel) : ∃ n, fuel = n + 1 := by
  obtain ⟨c, cs, rfl, -⟩ := h
  exact Nat.exists_eq_succ_of_ne_zero (Nat.ne_zero_of_lt hfuel)

/-- Storable values are read back. By induction on the value: the items of an array and the values
of an object are read back. -/
theorem readsBack {indent : Option Nat} {room : Nat} {value : Json} (h : Storable room value) :
    ReadsBack indent room value := by
  induction h with
  | null =>
      intro depth fuel rest hrest hfuel
      obtain ⟨fuel, rfl⟩ := Nat.exists_eq_succ_of_ne_zero (Nat.ne_zero_of_lt hfuel)
      have hread := readValue_scalar (c := 'n') (by decide) (by decide) (by decide)
      exact (hread _ _ _).trans (readScalar_null rest)
  | boolean b =>
      intro depth fuel rest hrest hfuel
      rw [writeAt, ← readScalar_boolean b rest]
      cases b <;>
      · obtain ⟨fuel, rfl⟩ := Nat.exists_eq_succ_of_ne_zero (Nat.ne_zero_of_lt hfuel)
        exact readValue_scalar (by decide) (by decide) (by decide) _ _ _
  | @integer room n h =>
      intro depth fuel rest hrest hfuel
      obtain ⟨fuel, rfl⟩ := exists_fuel (ofInt_head n) hfuel
      rw [writeAt, readValue_number (ofInt_head n), readScalar_ofInt h hrest]
  | real negative place =>
      intro depth fuel rest hrest hfuel
      obtain ⟨fuel, rfl⟩ := exists_fuel (writeReal_head negative place) hfuel
      rw [writeAt, readValue_number (writeReal_head negative place),
        readScalar_writeReal negative place hrest]
  | string t =>
      intro depth fuel rest hrest hfuel
      obtain ⟨fuel, rfl⟩ := Nat.exists_eq_succ_of_ne_zero (Nat.ne_zero_of_lt hfuel)
      have htext : CodeText.ofText (quote (CodeText.ofText t)) ++ rest =
          .scalar '"' :: (CodeText.ofText ((CodeText.ofText t).flatMap quotePoint) ++
            .scalar '"' :: rest) := by
        simp [quote, CodeText.ofText]
      rw [writeAt, htext]
      simp only [readValue, readString_quote, bind, Except.bind]
  | array h ih => exact readsBack_array h ih
  | object keys h ih => exact readsBack_object keys h ih

/-! ### Texts and octets -/

lemma endsNumber_gapText {gap : Text} (h : IsGapText gap) : EndsNumber (CodeText.ofText gap) := by
  cases gap with
  | nil => exact endsNumber_nil
  | cons c gap =>
      obtain ⟨hdigit, hpoint, hmark⟩ := gap_ends (h List.mem_cons_self)
      exact endsNumber_cons hdigit hpoint hmark _

/-- A storable value is read from its text, at any indentation and with white space behind it. -/
theorem read_write {value : Json} (h : Storable maxNesting value) (indent : Option Nat)
    {gap : Text} (hgap : IsGapText gap) :
    read (CodeText.ofText (write indent value ++ gap)) = .ok value := by
  obtain ⟨c, cs, hhead, hc, -⟩ := writeAt_head indent 0 h
  have htext : CodeText.ofText (write indent value ++ gap) =
      CodeText.ofText (writeAt indent 0 value) ++ CodeText.ofText gap :=
    CodeText.ofText_append _ _
  have hskip : skipGap (CodeText.ofText (write indent value ++ gap)) =
      CodeText.ofText (write indent value ++ gap) := by
    rw [htext, hhead]
    exact skipGap_cons hc _
  have hend : skipGap (CodeText.ofText gap) = [] := by
    rw [← List.append_nil (CodeText.ofText gap), skipGap_append hgap]
    rfl
  have hfuel : (writeAt indent 0 value).length ≤
      2 * (CodeText.ofText (write indent value ++ gap)).length + 2 := by
    rw [htext, List.length_append, CodeText.ofText, List.length_map]
    omega
  have hread := readsBack h 0 _ _ (endsNumber_gapText hgap) hfuel
  have hall : readAll (CodeText.ofText (write indent value ++ gap)) = .ok value := by
    rw [← htext] at hread
    rw [readAll, hskip, hread]
    simp only [bind, Except.bind, hend]
  rw [read, hall]
  rfl

/-- Octets that begin with a brace and with a quotation mark or a line feed are read as UTF-8: they
begin with no byte order mark, and neither of the two is a zero. -/
lemma decode_object {b : UInt8} (hb : b = 0x22 ∨ b = 0x0A) (octets : Octets) :
    decode (0x7B :: b :: octets) = decodeUtf8? (0x7B :: b :: octets) := by
  rcases hb with rfl | rfl <;>
  · rcases octets with _ | ⟨c, _ | ⟨d, octets⟩⟩ <;> rfl

end Json

end Galley
