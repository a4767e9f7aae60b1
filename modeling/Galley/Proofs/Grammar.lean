import Galley.Proofs.Layouts
import Galley.Proofs.Tokens
import Galley.Proofs.Walks
import Galley.Proofs.Writing

/-!
The grammar of JSON texts, and which written values are in it.

* `IsNumber`, `IsCharacter`, `IsString`, `Around`: the tokens;
* `Spells`, `IsText`: values, their members, and texts;
* `isString_quote`, `isNumber_ofInt`, `isNumber_writeReal`: written strings, integers and finite
  numbers are tokens;
* `Json.IsFinite`, `spells_write`: so a value without infinities and not-a-number is written in the
  grammar;
* `bare`, `Closes`: what a text holds outside its strings, and that they end in it;
* `isClean_text`: a text of the grammar holds only some characters there, and the words for infinity
  and not-a-number begin with others;
* `shows_write`: so a written value that holds no others there is finite;
* `isText_write`: a written value is in the grammar exactly if it is finite.
-/

namespace Galley

namespace Json

/-! ### Tokens -/

/-- The digits before the point: a lone zero, or digits that begin with another one. -/
inductive IsWholePart : Text → Prop
  | zero : IsWholePart ['0']
  | digits {d : Char} {ds : Text} (hd : d ∈ "123456789".toList) (hds : ds ⊆ digitAlphabet) :
      IsWholePart (d :: ds)

/-- A fraction, if there is one. -/
inductive IsFractionPart : Text → Prop
  | none : IsFractionPart []
  | digits {ds : Text} (hne : ds ≠ []) (hds : ds ⊆ digitAlphabet) : IsFractionPart ('.' :: ds)

/-- An exponent, if there is one. -/
inductive IsExponentPart : Text → Prop
  | none : IsExponentPart []
  | digits {mark : Char} {sign ds : Text} (hmark : mark ∈ ['e', 'E'])
      (hsign : sign ∈ [[], ['-'], ['+']]) (hne : ds ≠ []) (hds : ds ⊆ digitAlphabet) :
      IsExponentPart (mark :: (sign ++ ds))

/-- A number. -/
inductive IsNumber : Text → Prop
  | parts {sign whole fraction exponent : Text} (hsign : sign ∈ [[], ['-']])
      (hwhole : IsWholePart whole) (hfraction : IsFractionPart fraction)
      (hexponent : IsExponentPart exponent) : IsNumber (sign ++ (whole ++ fraction ++ exponent))

/-- The digits of base sixteen. -/
def hexAlphabet : Text := "0123456789abcdefABCDEF".toList

/-- A character of a string: a character that stands for itself, or an escape. -/
inductive IsCharacter : Text → Prop
  | plain {c : Char} (hlow : 0x20 ≤ c.toNat) (hquote : c ≠ '"') (hback : c ≠ '\\') : IsCharacter [c]
  | short {c : Char} (h : c ∈ "\"\\/bfnrt".toList) : IsCharacter ['\\', c]
  | unit {digits : Text} (hlength : digits.length = 4) (hdigits : digits ⊆ hexAlphabet) :
      IsCharacter ('\\' :: 'u' :: digits)

/-- A string in quotes. -/
inductive IsString : Text → Prop
  | quoted {characters : List Text} (h : ∀ t ∈ characters, IsCharacter t) :
      IsString ('"' :: (characters.flatten ++ ['"']))

/-- A mark with white space around it. -/
inductive Around (c : Char) : Text → Prop
  | gaps {before behind : Text} (hbefore : IsGapText before) (hbehind : IsGapText behind) :
      Around c (before ++ c :: behind)

/-! ### Values -/

/-- The phrases of the grammar: a value, the items of an array, and the members of an object. -/
inductive Phrase where
  | value
  | items
  | members

/-- A text spells a phrase. -/
inductive Spells : Phrase → Text → Prop
  | word {t : Text} (h : t ∈ ["null".toList, "true".toList, "false".toList]) : Spells .value t
  | number {t : Text} (h : IsNumber t) : Spells .value t
  | string {t : Text} (h : IsString t) : Spells .value t
  | emptyArray {s t : Text} (hs : Around '[' s) (ht : Around ']' t) : Spells .value (s ++ t)
  | array {s items t : Text} (hs : Around '[' s) (h : Spells .items items) (ht : Around ']' t) :
      Spells .value (s ++ (items ++ t))
  | emptyObject {s t : Text} (hs : Around '\x7b' s) (ht : Around '\x7d' t) : Spells .value (s ++ t)
  | object {s members t : Text} (hs : Around '\x7b' s) (h : Spells .members members)
      (ht : Around '\x7d' t) : Spells .value (s ++ (members ++ t))
  | lastItem {item : Text} (h : Spells .value item) : Spells .items item
  | item {item comma items : Text} (h : Spells .value item) (hcomma : Around ',' comma)
      (hitems : Spells .items items) : Spells .items (item ++ (comma ++ items))
  | lastMember {key colon value : Text} (hkey : IsString key) (hcolon : Around ':' colon)
      (hvalue : Spells .value value) : Spells .members (key ++ (colon ++ value))
  | member {key colon value comma members : Text} (hkey : IsString key) (hcolon : Around ':' colon)
      (hvalue : Spells .value value) (hcomma : Around ',' comma)
      (hmembers : Spells .members members) :
      Spells .members (key ++ (colon ++ value) ++ (comma ++ members))

/-- A text of the grammar: a value with white space around it. -/
inductive IsText : Text → Prop
  | value {before value behind : Text} (hbefore : IsGapText before) (h : Spells .value value)
      (hbehind : IsGapText behind) : IsText (before ++ (value ++ behind))

/-! ### Written tokens -/

lemma digits_subset {ds : Text} (h : ∀ c ∈ ds, isDigit c = true) : ds ⊆ digitAlphabet :=
  fun c hc => mem_digitAlphabet (h c hc)

lemma isWholePart_of_isWhole {t : Text} (h : IsWhole t) : IsWholePart t := by
  obtain ⟨hdigits, rfl | ⟨d, ds, rfl, hd⟩⟩ := h
  · exact .zero
  · have hnonzero : ∀ c ∈ digitAlphabet, c ≠ '0' → c ∈ "123456789".toList :=
      List.forall_iff_forall_mem.mp (by decide)
    have hsubset := digits_subset hdigits
    exact .digits (hnonzero d (hsubset List.mem_cons_self) hd)
      fun c hc => hsubset (List.mem_cons_of_mem d hc)

lemma isFractionPart {t : Text} (h : ∀ c ∈ t, isDigit c = true) :
    IsFractionPart (fractionPart t) := by
  cases t with
  | nil => exact .none
  | cons d ds => exact .digits (List.cons_ne_nil d ds) (digits_subset h)

lemma isExponentPart (e : Option Int) : IsExponentPart (exponentPart e) := by
  cases e with
  | none => exact .none
  | some e =>
      obtain ⟨hne, hdigits, -⟩ := exponentDigits_spec e
      have hsign : (if e < 0 then ['-'] else ['+']) ∈ ([[], ['-'], ['+']] : List Text) := by
        split_ifs <;> decide
      have htext : exponentPart (some e) =
          'e' :: ((if e < 0 then ['-'] else ['+']) ++ exponentDigits e) := by
        rw [exponentPart, exponentText, exponentDigits]
        split_ifs <;> rfl
      rw [htext]
      exact .digits (by decide) hsign hne (digits_subset hdigits)

lemma signText_mem (negative : Bool) : signText negative ∈ ([[], ['-']] : List Text) := by
  cases negative <;> decide

/-- Integers are written as numbers. -/
lemma isNumber_ofInt (n : Int) : IsNumber (Text.ofInt n) := by
  have hnumber := IsNumber.parts (signText_mem (n < 0))
    (isWholePart_of_isWhole (isWhole_ofNat n.natAbs)) .none .none
  rwa [List.append_nil, List.append_nil, ← ofInt_eq] at hnumber

/-- Finite numbers are written as numbers. -/
lemma isNumber_writeReal {x : Binary64} (h : x.isFinite = true) : IsNumber (writeReal x) := by
  cases x with
  | nan => cases h
  | infinity negative => cases h
  | finite negative place =>
      have hn := magnitudeNumeral_wellFormed place
      rw [writeReal_finite, Numeral.text]
      exact .parts (signText_mem negative) (isWholePart_of_isWhole hn.whole)
        (isFractionPart hn.fraction) (isExponentPart _)

lemma isCharacter_unitEscape (n : Nat) : IsCharacter (unitEscape n) := by
  have hhex : ∀ k < 16, hexDigit k ∈ hexAlphabet := by decide
  refine .unit rfl fun c hc => ?_
  obtain ⟨i, -, rfl⟩ := List.mem_map.mp hc
  exact hhex _ (Nat.mod_lt _ (by decide))

/-- The characters that a code point is written with. -/
lemma isCharacter_quotePoint (c : CodePoint) :
    ∃ characters : List Text, (∀ t ∈ characters, IsCharacter t) ∧
      quotePoint c = characters.flatten := by
  cases c with
  | surrogate i =>
      refine ⟨[unitEscape (0xD800 + i.val)], ?_, (List.flatten_singleton).symm⟩
      exact List.forall_mem_singleton.mpr (isCharacter_unitEscape _)
  | scalar c =>
      have hshort : ∀ e, e ≠ 'u' → shortEscape? e = some c → e ∈ "\"\\/bfnrt".toList := by
        intro e _ he
        unfold shortEscape? at he
        split at he
        case h_9 => cases he
        all_goals decide
      rcases quotePoint_cases c with ⟨e, hu, he, hpoint⟩ | ⟨hlow, hquote, hback, hpoint⟩ |
          ⟨-, hpoint⟩ | ⟨-, hpoint⟩
      · refine ⟨[['\\', e]], ?_, by rw [hpoint, List.flatten_singleton]⟩
        exact List.forall_mem_singleton.mpr (.short (hshort e hu he))
      · refine ⟨[[c]], ?_, by rw [hpoint, List.flatten_singleton]⟩
        exact List.forall_mem_singleton.mpr (.plain hlow hquote hback)
      · refine ⟨[unitEscape c.toNat], ?_, by rw [hpoint, List.flatten_singleton]⟩
        exact List.forall_mem_singleton.mpr (isCharacter_unitEscape _)
      · refine ⟨[unitEscape (0xD800 + (c.toNat - 0x10000) / 1024),
          unitEscape (0xDC00 + (c.toNat - 0x10000) % 1024)], ?_, ?_⟩
        · rw [List.forall_mem_cons, List.forall_mem_singleton]
          exact ⟨isCharacter_unitEscape _, isCharacter_unitEscape _⟩
        · rw [hpoint, List.flatten_cons, List.flatten_singleton]

/-- Strings are written as strings. -/
lemma isString_quote (s : CodeText) : IsString (quote s) := by
  have hcharacters : ∃ characters : List Text, (∀ t ∈ characters, IsCharacter t) ∧
      s.flatMap quotePoint = characters.flatten := by
    induction s with
    | nil => exact ⟨[], by simp, rfl⟩
    | cons c s ih =>
        obtain ⟨front, hfront, hpoint⟩ := isCharacter_quotePoint c
        obtain ⟨behind, hbehind, hrest⟩ := ih
        refine ⟨front ++ behind, fun t ht => ?_, ?_⟩
        · exact (List.mem_append.mp ht).elim (hfront t) (hbehind t)
        · rw [List.flatMap_cons, hpoint, hrest, List.flatten_append]
  obtain ⟨characters, h, hflatten⟩ := hcharacters
  rw [quote, hflatten]
  exact .quoted h

/-! ### Finite values -/

/-- No number of a value is an infinity or not-a-number. -/
def IsFinite (value : Json) : Prop := ∀ x, .real x ∈ value.preorder → x.isFinite = true

lemma IsFinite.member {value member : Json} (h : value.IsFinite)
    (hmember : member ∈ value.members) : member.IsFinite :=
  fun x hx => h x (mem_preorder.mpr (.inr ⟨member, hmember, hx⟩))

/-- A value that is no number is finite if and only if the values directly inside it are. -/
lemma isFinite_iff_members {value : Json} (hreal : ∀ x, value ≠ .real x) :
    value.IsFinite ↔ ∀ member ∈ value.members, member.IsFinite := by
  refine ⟨fun h _ hmember => h.member hmember, fun h x hx => ?_⟩
  rcases mem_preorder.mp hx with heq | ⟨member, hmember, hx⟩
  · exact absurd heq.symm (hreal x)
  · exact h member hmember x hx

/-- A value that is no number and holds no values is finite. -/
lemma isFinite_of_members_nil {value : Json} (hreal : ∀ x, value ≠ .real x)
    (h : value.members = []) : value.IsFinite :=
  (isFinite_iff_members hreal).mpr (by simp [h])

@[simp] lemma isFinite_real {x : Binary64} : (Json.real x).IsFinite ↔ x.isFinite = true := by
  simp [IsFinite, preorder]

@[simp] lemma isFinite_integer (n : Int) : (Json.integer n).IsFinite :=
  isFinite_of_members_nil (by simp) rfl

@[simp] lemma isFinite_string (s : CodeText) : (Json.string s).IsFinite :=
  isFinite_of_members_nil (by simp) rfl

@[simp] lemma isFinite_array {items : List Json} :
    (Json.array items).IsFinite ↔ ∀ item ∈ items, item.IsFinite :=
  isFinite_iff_members (by simp)

@[simp] lemma isFinite_object {fields : List (CodeText × Json)} :
    (Json.object fields).IsFinite ↔ ∀ field ∈ fields, field.2.IsFinite :=
  (isFinite_iff_members (by simp)).trans List.forall_mem_map

@[simp] lemma isFinite_ofFields {fields : List (String × Json)} :
    (ofFields fields).IsFinite ↔ ∀ field ∈ fields, field.2.IsFinite :=
  isFinite_object.trans List.forall_mem_map

section Written

variable {indent : Option Nat}

lemma around_opening {c : Char} {gap : Text} (h : IsGapText gap) : Around c (c :: gap) :=
  .gaps isGapText_nil h

lemma around_closing {c : Char} {gap : Text} (h : IsGapText gap) : Around c (gap ++ [c]) :=
  .gaps h isGapText_nil

lemma around_alone (c : Char) : Around c [c] := .gaps isGapText_nil isGapText_nil

lemma around_colon : Around ':' [':', ' '] :=
  around_opening (List.cons_subset.mpr ⟨by decide, isGapText_nil⟩)

lemma around_comma (depth : Nat) : Around ',' (',' :: separatorGap indent depth) :=
  around_opening (isGapText_separatorGap indent depth)

/-- Items are written in the grammar. By induction on the items behind the first one. -/
lemma spells_items {depth : Nat} {item : Json} {items : List Json}
    (h : ∀ v ∈ item :: items, Spells .value (writeAt indent depth v)) :
    Spells .items (writeAt indent depth item ++ writeItems indent depth items) := by
  induction items generalizing item with
  | nil =>
      rw [writeItems, List.append_nil]
      exact .lastItem (h item List.mem_cons_self)
  | cons next items ih =>
      rw [writeItems_cons, ← List.cons_append]
      exact .item (h item List.mem_cons_self) (around_comma depth)
        (ih fun v hv => h v (List.mem_cons_of_mem _ hv))

/-- Members are written in the grammar. By induction on the members behind the first one. -/
lemma spells_members {depth : Nat} {field : CodeText × Json} {fields : List (CodeText × Json)}
    (h : ∀ f ∈ field :: fields, Spells .value (writeAt indent depth f.2)) :
    Spells .members (writeMember indent depth field ++ writeFields indent depth fields) := by
  induction fields generalizing field with
  | nil =>
      rw [writeFields, List.append_nil]
      exact .lastMember (isString_quote _) around_colon (h field List.mem_cons_self)
  | cons next fields ih =>
      rw [writeFields_cons, ← List.cons_append]
      exact .member (isString_quote _) around_colon (h field List.mem_cons_self)
        (around_comma depth) (ih fun f hf => h f (List.mem_cons_of_mem _ hf))

/-- Finite values are written in the grammar. By induction on the value. -/
theorem spells_write {value : Json} (h : value.IsFinite) (depth : Nat) :
    Spells .value (writeAt indent depth value) := by
  induction value using members_induction generalizing depth with
  | h value ih =>
      have hmembers := fun member hm depth => ih member hm (h.member hm) depth
      cases value with
      | null => exact .word List.mem_cons_self
      | boolean b => exact .word (by cases b <;> simp [writeAt])
      | integer n => exact .number (isNumber_ofInt n)
      | real x => exact .number (isNumber_writeReal (isFinite_real.mp h))
      | string s => exact .string (isString_quote s)
      | array items =>
          cases items with
          | nil => exact .emptyArray (around_alone '[') (around_alone ']')
          | cons item items =>
              rw [writeAt_array, ← List.cons_append, ← List.append_assoc (writeAt _ _ _)]
              exact .array (around_opening (isGapText_breakLine _ _))
                (spells_items fun v hv => hmembers v hv _)
                (around_closing (isGapText_breakLine _ _))
      | object fields =>
          cases fields with
          | nil => exact .emptyObject (around_alone '\x7b') (around_alone '\x7d')
          | cons field fields =>
              rw [writeAt_object, ← List.cons_append, ← List.append_assoc (writeMember _ _ _)]
              exact .object (around_opening (isGapText_breakLine _ _))
                (spells_members fun f hf => hmembers f.2 (List.mem_map_of_mem hf) _)
                (around_closing (isGapText_breakLine _ _))

end Written

/-! ### Outside the strings -/

/-- The characters of a text outside its strings, from inside a string or from outside. -/
def bareFrom : Bool → Text → Text
  | _, [] => []
  | false, c :: cs => if c = '"' then bareFrom true cs else c :: bareFrom false cs
  | true, '\\' :: _ :: cs => bareFrom true cs
  | true, c :: cs => bareFrom (c != '"') cs

/-- The characters of a text outside its strings. -/
def bare (t : Text) : Text := bareFrom false t

/-- The strings of a text end in it. -/
def Closes (t : Text) : Prop := ∀ rest, bare (t ++ rest) = bare t ++ bare rest

/-- The characters of the grammar outside strings. -/
def bareAlphabet : Text := "truefalsn0123456789+-.eE[]\x7b\x7d:, \t\n\r".toList

lemma bare_append_of_notMem {t : Text} (h : '"' ∉ t) (rest : Text) :
    bare (t ++ rest) = t ++ bare rest := by
  induction t with
  | nil => rfl
  | cons c t ih =>
      rw [List.mem_cons, not_or] at h
      rw [List.cons_append, bare, bareFrom, if_neg (Ne.symm h.1), List.cons_append]
      exact congrArg (c :: ·) (ih h.2)

lemma bare_of_notMem {t : Text} (h : '"' ∉ t) : bare t = t := by
  have happend : bare (t ++ []) = t ++ [] := bare_append_of_notMem h []
  rwa [List.append_nil] at happend

lemma closes_of_notMem {t : Text} (h : '"' ∉ t) : Closes t := fun rest => by
  rw [bare_append_of_notMem h, bare_of_notMem h]

lemma Closes.append {s t : Text} (hs : Closes s) (ht : Closes t) : Closes (s ++ t) := fun rest => by
  rw [List.append_assoc, hs, ht, hs, List.append_assoc]

/-- What stands inside a string does not count. -/
lemma bareFrom_character {t : Text} (h : IsCharacter t) (rest : Text) :
    bareFrom true (t ++ rest) = bareFrom true rest := by
  have hplain : ∀ {c : Char} (rest : Text), c ≠ '"' → c ≠ '\\' →
      bareFrom true (c :: rest) = bareFrom true rest := by
    intro c rest hquote hback
    rw [bareFrom]
    · rw [bne_iff_ne.mpr hquote]
    · exact fun _ _ heq => absurd heq hback
  cases h with
  | plain hlow hquote hback => exact hplain rest hquote hback
  | short h => rfl
  | @unit digits hlength hdigits =>
      have hhex : ∀ c ∈ hexAlphabet, c ≠ '"' ∧ c ≠ '\\' :=
        List.forall_iff_forall_mem.mp (by decide)
      change bareFrom true (digits ++ rest) = _
      clear hlength
      induction digits with
      | nil => rfl
      | cons c digits ih =>
          obtain ⟨hc, hdigits⟩ := List.cons_subset.mp hdigits
          rw [List.cons_append, hplain _ (hhex c hc).1 (hhex c hc).2, ih hdigits]

lemma bare_string {t : Text} (h : IsString t) (rest : Text) : bare (t ++ rest) = bare rest := by
  cases h with
  | @quoted characters h =>
      change bareFrom true (characters.flatten ++ ['"'] ++ rest) = _
      induction characters with
      | nil => rfl
      | cons c characters ih =>
          obtain ⟨hc, h⟩ := List.forall_mem_cons.mp h
          rw [List.flatten_cons, List.append_assoc, List.append_assoc, bareFrom_character hc,
            ← List.append_assoc, ih h]

lemma bare_string_nil {t : Text} (h : IsString t) : bare t = [] := by
  have hbare := bare_string h []
  rwa [List.append_nil] at hbare

lemma closes_string {t : Text} (h : IsString t) : Closes t := fun rest => by
  rw [bare_string h, bare_string_nil h, List.nil_append]

/-! ### Texts of the grammar -/

/-- A text whose strings end in it, and that holds no other characters than those of the grammar
outside them. -/
def IsClean (t : Text) : Prop := Closes t ∧ bare t ⊆ bareAlphabet

lemma IsClean.append {s t : Text} (hs : IsClean s) (ht : IsClean t) : IsClean (s ++ t) := by
  refine ⟨hs.1.append ht.1, ?_⟩
  rw [hs.1]
  exact List.append_subset.mpr ⟨hs.2, ht.2⟩

lemma isClean_of_subset {t : Text} (h : t ⊆ bareAlphabet) : IsClean t := by
  have hquote : '"' ∉ t := fun hmem => absurd (h hmem) (by decide)
  exact ⟨closes_of_notMem hquote, (bare_of_notMem hquote).symm ▸ h⟩

lemma isClean_string {t : Text} (h : IsString t) : IsClean t :=
  ⟨closes_string h, bare_string_nil h ▸ List.nil_subset _⟩

lemma isClean_gap {gap : Text} (h : IsGapText gap) : IsClean gap :=
  isClean_of_subset (List.Subset.trans h (by decide))

lemma isClean_around {c : Char} (hc : c ∈ bareAlphabet) {t : Text} (h : Around c t) :
    IsClean t := by
  obtain ⟨hbefore, hbehind⟩ := h
  have hmark : IsClean [c] := isClean_of_subset (List.cons_subset.mpr ⟨hc, List.nil_subset _⟩)
  exact (isClean_gap hbefore).append (hmark.append (isClean_gap hbehind))

lemma isClean_digits {ds : Text} (h : ds ⊆ digitAlphabet) : IsClean ds :=
  isClean_of_subset (List.Subset.trans h (by decide))

lemma isClean_wholePart {t : Text} (h : IsWholePart t) : IsClean t := by
  have hnonzero : "123456789".toList ⊆ digitAlphabet := by decide
  cases h with
  | zero => exact isClean_digits (by decide)
  | digits hd hds => exact isClean_digits (List.cons_subset.mpr ⟨hnonzero hd, hds⟩)

lemma isClean_fractionPart {t : Text} (h : IsFractionPart t) : IsClean t := by
  cases h with
  | none => exact isClean_digits (List.nil_subset _)
  | digits hne hds =>
      have hpoint : IsClean ['.'] := isClean_of_subset (by decide)
      exact hpoint.append (isClean_digits hds)

lemma isClean_exponentPart {t : Text} (h : IsExponentPart t) : IsClean t := by
  have hmarks : ∀ mark ∈ ['e', 'E'], ∀ sign ∈ ([[], ['-'], ['+']] : List Text),
      mark :: sign ⊆ bareAlphabet := List.forall_iff_forall_mem.mp (by decide)
  cases h with
  | none => exact isClean_digits (List.nil_subset _)
  | digits hmark hsign hne hds =>
      exact (isClean_of_subset (hmarks _ hmark _ hsign)).append (isClean_digits hds)

lemma isClean_number {t : Text} (h : IsNumber t) : IsClean t := by
  have hsigns : ∀ sign ∈ ([[], ['-']] : List Text), sign ⊆ bareAlphabet := by decide
  obtain ⟨hsign, hwhole, hfraction, hexponent⟩ := h
  exact (isClean_of_subset (hsigns _ hsign)).append
    (((isClean_wholePart hwhole).append (isClean_fractionPart hfraction)).append
      (isClean_exponentPart hexponent))

/-- What the texts of the grammar hold outside their strings. By induction on the grammar. -/
lemma isClean_spells {p : Phrase} {t : Text} (h : Spells p t) : IsClean t := by
  induction h with
  | word h =>
      have hwords : ∀ t ∈ ["null".toList, "true".toList, "false".toList], t ⊆ bareAlphabet := by
        decide
      exact isClean_of_subset (hwords _ h)
  | number h => exact isClean_number h
  | string h => exact isClean_string h
  | emptyArray hs ht =>
      exact (isClean_around (by decide) hs).append (isClean_around (by decide) ht)
  | array hs _ ht ih =>
      exact (isClean_around (by decide) hs).append (ih.append (isClean_around (by decide) ht))
  | emptyObject hs ht =>
      exact (isClean_around (by decide) hs).append (isClean_around (by decide) ht)
  | object hs _ ht ih =>
      exact (isClean_around (by decide) hs).append (ih.append (isClean_around (by decide) ht))
  | lastItem _ ih => exact ih
  | item _ hcomma _ ih ihItems =>
      exact ih.append ((isClean_around (by decide) hcomma).append ihItems)
  | lastMember hkey hcolon _ ih =>
      exact (isClean_string hkey).append ((isClean_around (by decide) hcolon).append ih)
  | member hkey hcolon _ hcomma _ ih ihMembers =>
      exact ((isClean_string hkey).append ((isClean_around (by decide) hcolon).append ih)).append
        ((isClean_around (by decide) hcomma).append ihMembers)

lemma isClean_text {t : Text} (h : IsText t) : IsClean t := by
  obtain ⟨hbefore, h, hbehind⟩ := h
  exact (isClean_gap hbefore).append ((isClean_spells h).append (isClean_gap hbehind))

/-! ### Written values -/

/-- The strings of a text end in it, and a fact holds if the text holds no other characters than
those of the grammar outside them. -/
def Shows (t : Text) (p : Prop) : Prop := Closes t ∧ (bare t ⊆ bareAlphabet → p)

lemma Shows.append {s t : Text} {p q : Prop} (hs : Shows s p) (ht : Shows t q) :
    Shows (s ++ t) (p ∧ q) := by
  refine ⟨hs.1.append ht.1, fun h => ?_⟩
  rw [hs.1, List.append_subset] at h
  exact ⟨hs.2 h.1, ht.2 h.2⟩

lemma Shows.mono {t : Text} {p q : Prop} (ht : Shows t p) (h : p → q) : Shows t q :=
  ⟨ht.1, fun hbare => h (ht.2 hbare)⟩

lemma IsClean.shows {t : Text} (h : IsClean t) : Shows t True := ⟨h.1, fun _ => trivial⟩

section Written

variable {indent : Option Nat}

lemma shows_real (x : Binary64) : Shows (writeReal x) (Json.real x).IsFinite := by
  rw [isFinite_real]
  cases x with
  | nan => exact ⟨closes_of_notMem (by decide), by decide⟩
  | infinity negative =>
      cases negative
      all_goals exact ⟨closes_of_notMem (by decide), by decide⟩
  | finite negative place => exact (isClean_number (isNumber_writeReal rfl)).shows.mono fun _ => rfl

lemma shows_items {depth : Nat} {items : List Json}
    (h : ∀ v ∈ items, Shows (writeAt indent depth v) v.IsFinite) :
    Shows (writeItems indent depth items) (∀ v ∈ items, v.IsFinite) := by
  induction items with
  | nil => exact (isClean_gap isGapText_nil).shows.mono fun _ => by simp
  | cons item items ih =>
      obtain ⟨hitem, h⟩ := List.forall_mem_cons.mp h
      have hcomma := (isClean_around (by decide) (@around_comma indent depth)).shows
      rw [writeItems_cons, ← List.cons_append]
      exact (hcomma.append (hitem.append (ih h))).mono fun hall =>
        List.forall_mem_cons.mpr hall.2

lemma shows_member {depth : Nat} {field : CodeText × Json}
    (h : Shows (writeAt indent depth field.2) field.2.IsFinite) :
    Shows (writeMember indent depth field) field.2.IsFinite := by
  have hcolon := (isClean_around (by decide) around_colon).shows
  exact ((isClean_string (isString_quote field.1)).shows.append (hcolon.append h)).mono
    fun hall => hall.2.2

lemma shows_members {depth : Nat} {fields : List (CodeText × Json)}
    (h : ∀ f ∈ fields, Shows (writeAt indent depth f.2) f.2.IsFinite) :
    Shows (writeFields indent depth fields) (∀ f ∈ fields, f.2.IsFinite) := by
  induction fields with
  | nil => exact (isClean_gap isGapText_nil).shows.mono fun _ => by simp
  | cons field fields ih =>
      obtain ⟨hfield, h⟩ := List.forall_mem_cons.mp h
      have hcomma := (isClean_around (by decide) (@around_comma indent depth)).shows
      rw [writeFields_cons, ← List.cons_append]
      exact (hcomma.append ((shows_member hfield).append (ih h))).mono fun hall =>
        List.forall_mem_cons.mpr hall.2

/-- A value that is no number and holds no values is written in the grammar. -/
lemma shows_of_members_nil {value : Json} (hreal : ∀ x, value ≠ .real x) (h : value.members = [])
    (depth : Nat) : Shows (writeAt indent depth value) value.IsFinite := by
  have hfinite := isFinite_of_members_nil hreal h
  exact (isClean_spells (spells_write hfinite depth)).shows.mono fun _ => hfinite

/-- A written value shows whether it is finite. By induction on the value. -/
theorem shows_write (value : Json) (depth : Nat) :
    Shows (writeAt indent depth value) value.IsFinite := by
  have hopening : ∀ c ∈ bareAlphabet, ∀ depth, Shows (c :: breakLine indent depth) True :=
    fun c hc depth =>
      (isClean_around hc (around_opening (isGapText_breakLine indent depth))).shows
  have hclosing : ∀ c ∈ bareAlphabet, ∀ depth, Shows (breakLine indent depth ++ [c]) True :=
    fun c hc depth =>
      (isClean_around hc (around_closing (isGapText_breakLine indent depth))).shows
  induction value using members_induction generalizing depth with
  | h value ih =>
      cases value with
      | real x => exact shows_real x
      | array items =>
          cases items with
          | nil => exact shows_of_members_nil (by simp) rfl depth
          | cons item items =>
              obtain ⟨hitem, hitems⟩ := List.forall_mem_cons.mp ih
              have hshows := (hitem (depth + 1)).append (shows_items fun v hv =>
                hitems v hv (depth + 1))
              rw [writeAt_array, ← List.cons_append, ← List.append_assoc (writeAt _ _ _)]
              refine ((hopening _ (by decide) _).append (hshows.append
                (hclosing _ (by decide) _))).mono fun hall => isFinite_array.mpr ?_
              exact List.forall_mem_cons.mpr hall.2.1
      | object fields =>
          cases fields with
          | nil => exact shows_of_members_nil (by simp) rfl depth
          | cons field fields =>
              obtain ⟨hfield, hfields⟩ := List.forall_mem_cons.mp ih
              have hshows := (shows_member (hfield (depth + 1))).append (shows_members fun f hf =>
                hfields f.2 (List.mem_map_of_mem hf) (depth + 1))
              rw [writeAt_object, ← List.cons_append, ← List.append_assoc (writeMember _ _ _)]
              refine ((hopening _ (by decide) _).append (hshows.append
                (hclosing _ (by decide) _))).mono fun hall => isFinite_object.mpr ?_
              exact List.forall_mem_cons.mpr hall.2.1
      | null | boolean b | integer n | string s =>
          exact shows_of_members_nil (by simp) rfl depth

end Written

/-- A value is written as a text of the grammar if and only if it is finite. -/
theorem isText_write {indent : Option Nat} {value : Json} :
    IsText (write indent value) ↔ value.IsFinite := by
  constructor
  · exact fun h => (shows_write value 0).2 (isClean_text h).2
  · intro h
    have htext := IsText.value isGapText_nil (@spells_write indent _ h 0) isGapText_nil
    rwa [List.append_nil, List.nil_append] at htext

end Json

end Galley
