import Galley.Json.Reader
import Galley.Proofs.Outcomes
import Mathlib.Data.List.TakeWhile
import Mathlib.Tactic

/-!
What can go wrong when a text is read as JSON. Besides complaints about the text, an integer may
have too many digits, and arrays and objects may lie too deep inside one another.

* `Tame`: a text without long runs of digits and with few opening brackets;
* `Reads`: a reader leaves an end of what it is given, and gives no errors but complaints;
* `readString_reads`, `readNumber_reads`, `readValue_reads`: so do the readers on tame texts;
* `read_complains`: a tame text is read, or it is complained about.
-/

namespace Galley

namespace Json

/-! ### Texts -/

/-- The code point opens an array or an object. -/
def isOpening (c : CodePoint) : Bool := c == .scalar '[' || c == .scalar '\x7b'

/-- No run of digits is longer than an integer may be, and there is room for all opening
brackets. -/
structure Tame (room : Nat) (text : CodeText) : Prop where
  digits : ∀ run, run <:+: text → (∀ c ∈ run, c.satisfies isDigit) → run.length ≤ maxIntegerDigits
  openings : text.countP isOpening ≤ room

/-- Short texts have no long runs. -/
lemma Tame.of_length {room : Nat} {text : CodeText} (hlength : text.length ≤ maxIntegerDigits)
    (hopenings : text.countP isOpening ≤ room) : Tame room text :=
  ⟨fun _ hrun _ => hrun.length_le.trans hlength, hopenings⟩

lemma Tame.mono {room : Nat} {text rest : CodeText} (h : Tame room text) (hrest : rest <:+ text) :
    Tame room rest :=
  ⟨fun run hrun => h.digits run (hrun.trans hrest.isInfix),
    hrest.sublist.countP_le.trans h.openings⟩

/-- An opening bracket takes some of the room. -/
lemma Tame.opened {room : Nat} {c : CodePoint} {rest : CodeText} (h : Tame room (c :: rest))
    (hc : isOpening c = true) : room ≠ 0 ∧ Tame (room - 1) rest := by
  have hcount := h.openings
  rw [List.countP_cons_of_pos hc] at hcount
  exact ⟨by omega, (h.mono (List.suffix_cons c rest)).digits, by omega⟩

/-! ### Readers -/

/-- A complaint about the text. -/
def IsComplaint (failure : Failure) : Prop :=
  ∃ complaint remaining, failure = .malformed complaint remaining

variable {α β : Type}

/-- A reader leaves an end of what it is given, and gives no errors but complaints. -/
structure Reads (rest : CodeText) (x : Except Failure (α × CodeText)) : Prop where
  left : ∀ {a rest'}, x = .ok (a, rest') → rest' <:+ rest
  complains : FailsOnly IsComplaint x

namespace Reads

variable {rest : CodeText}

lemma ok {rest' : CodeText} (a : α) (h : rest' <:+ rest) :
    Reads rest (.ok (a, rest') : Except Failure (α × CodeText)) := by
  refine ⟨?_, .ok _⟩
  rintro _ _ ⟨⟩
  exact h

lemma malformed (complaint : Complaint) (remaining : Nat) :
    Reads rest (.error (.malformed complaint remaining) : Except Failure (α × CodeText)) :=
  ⟨nofun, .error ⟨complaint, remaining, rfl⟩⟩

lemma complain (complaint : Complaint) (place : CodeText) :
    Reads rest (Json.complain complaint place : Except Failure (α × CodeText)) :=
  malformed _ _

lemma mono {rest' : CodeText} {x : Except Failure (α × CodeText)} (h : Reads rest' x)
    (hrest : rest' <:+ rest) : Reads rest x :=
  ⟨fun hx => (h.left hx).trans hrest, h.complains⟩

/-- Two readers one behind the other. -/
lemma bind {x : Except Failure (α × CodeText)} {f : α × CodeText → Except Failure (β × CodeText)}
    (hx : Reads rest x) (hf : ∀ a rest', rest' <:+ rest → Reads rest' (f (a, rest'))) :
    Reads rest (x >>= f) := by
  cases x with
  | error failure => exact ⟨nofun, .error (hx.complains failure rfl)⟩
  | ok result => exact (hf result.1 result.2 (hx.left rfl)).mono (hx.left rfl)

/-- A reader that begins further on, and whose result is turned into another one. -/
lemma convert {rest' : CodeText} {x : Except Failure (α × CodeText)} (hx : Reads rest' x)
    (g : α → β) (hrest : rest' <:+ rest) :
    Reads rest (do
      let (a, rest) ← x
      .ok (g a, rest)) :=
  (hx.bind fun a rest _ => .ok (g a) (List.suffix_refl rest)).mono hrest

end Reads

lemma skipGap_suffix (rest : CodeText) : skipGap rest <:+ rest := List.dropWhile_suffix _

lemma skipGap_suffix_of_eq {rest behind : CodeText} {c : CodePoint}
    (h : skipGap rest = c :: behind) : behind <:+ rest :=
  (List.suffix_cons c behind).trans (h ▸ skipGap_suffix rest)

/-! ### Strings and numbers -/

lemma readString_reads (opening : Nat) (rest : CodeText) :
    Reads rest (readString opening rest) := by
  fun_induction readString opening rest with
  | case1 | case3 | case4 | case8 | case10 | case11 | case12 | case13 => exact .malformed _ _
  | case2 rest => exact .ok [] (List.suffix_cons _ rest)
  | case5 a b c d u e f g h i more _ v _ _ _ ih =>
      exact ih.convert _ (List.suffix_append [_, _, _, _, _, _, _, _, _, _, _, _] _)
  | case6 a b c d u e f g h i more _ v _ _ _ ih =>
      exact ih.convert _ (List.suffix_append [_, _, _, _, _, _] _)
  | case7 a b c d u rest _ _ ih => exact ih.convert _ (List.suffix_append [_, _, _, _, _, _] _)
  | case9 rest c e _ _ _ ih => exact ih.convert _ (List.suffix_append [_, _] _)
  | case14 c rest _ _ _ _ _ _ ih => exact ih.convert _ (List.suffix_cons c rest)

/-! ### Numbers -/

lemma takeDigits_suffix (rest : CodeText) : (takeDigits rest).2 <:+ rest := List.dropWhile_suffix _

lemma takeFraction_suffix (rest : CodeText) : (takeFraction rest).2 <:+ rest := by
  fun_cases takeFraction rest with
  | case1 | case3 => exact List.suffix_refl _
  | case2 more digits after hdigits _ =>
      exact (hdigits ▸ takeDigits_suffix more).trans (List.suffix_cons _ more)

lemma takeExponent_suffix (rest : CodeText) : (takeExponent rest).2 <:+ rest := by
  fun_cases takeExponent rest with
  | case1 | case3 | case4 => exact List.suffix_refl _
  | case2 c more _ negative body hsign digits after hdigits _ n =>
      have hbody : body <:+ more := by
        split at hsign <;> obtain ⟨rfl, rfl⟩ := Prod.mk.inj hsign
        · exact List.suffix_cons _ _
        · exact List.suffix_cons _ _
        · exact List.suffix_refl _
      have hafter := takeDigits_suffix body
      rw [hdigits] at hafter
      calc after <:+ body := hafter
        _ <:+ more := hbody
        _ <:+ .scalar c :: more := List.suffix_cons _ more

lemma takeWhole_suffix (rest : CodeText) : (takeWhole rest).2 <:+ rest := by
  fun_cases takeWhole rest with
  | case1 more => exact List.suffix_cons _ more
  | case2 => exact takeDigits_suffix rest

/-- The whole part of a number in a tame text is not too long. -/
lemma Tame.takeWhole_length {room : Nat} {rest : CodeText} (h : Tame room rest) :
    (takeWhole rest).1.length ≤ maxIntegerDigits := by
  fun_cases takeWhole rest with
  | case1 more => exact (by decide : 1 ≤ maxIntegerDigits)
  | case2 =>
      rw [takeDigits, CodeText.toText, List.length_map]
      exact h.digits _ (List.takeWhile_prefix _).isInfix fun c hc => List.mem_takeWhile_imp hc

lemma readNumber_reads {room : Nat} {start rest : CodeText} (h : Tame room rest)
    (hrest : rest <:+ start) (negative : Bool) : Reads start (readNumber start negative rest) := by
  have hleft : (takeExponent (takeFraction (takeWhole rest).2).2).2 <:+ start :=
    calc (takeExponent (takeFraction (takeWhole rest).2).2).2
        <:+ (takeFraction (takeWhole rest).2).2 := takeExponent_suffix _
      _ <:+ (takeWhole rest).2 := takeFraction_suffix _
      _ <:+ rest := takeWhole_suffix rest
      _ <:+ start := hrest
  have hlength := h.takeWhole_length
  rw [readNumber]
  dsimp only
  by_cases hwhole : (takeWhole rest).1.isEmpty
  · rw [if_pos hwhole]
    exact .complain .value start
  · rw [if_neg hwhole, if_neg (Nat.not_lt.mpr hlength)]
    split
    · exact .ok _ hleft
    · exact .ok _ hleft

lemma readScalar_reads {room : Nat} {rest : CodeText} (h : Tame room rest) :
    Reads rest (readScalar rest) := by
  fun_cases readScalar rest with
  | case1 => exact .ok _ (List.drop_suffix _ rest)
  | case2 more =>
      have hmore : more <:+ .scalar '-' :: more := List.suffix_cons _ more
      exact readNumber_reads (h.mono hmore) hmore true
  | case3 => exact readNumber_reads h (List.suffix_refl rest) false

/-! ### Values -/

/-- A reader that is given enough room reads tame texts. -/
def ReadsTame (reader : Nat → CodeText → Except Failure (α × CodeText)) : Prop :=
  ∀ {room rest}, Tame room rest → Reads rest (reader room rest)

/-- A reader may go on behind white space, in front of which a mark has been taken. -/
lemma skipGap_behind {rest behind : CodeText} {c : CodePoint} (h : skipGap rest = c :: behind) :
    skipGap behind <:+ rest :=
  (skipGap_suffix behind).trans (skipGap_suffix_of_eq h)

variable {fuel : Nat}

lemma readItems_step (hvalue : ReadsTame (readValue fuel)) (hitems : ReadsTame (readItems fuel)) :
    ReadsTame (readItems (fuel + 1)) := by
  intro room rest h
  rw [readItems]
  refine (hvalue h).bind fun item rest' hrest' => ?_
  dsimp only
  split
  · exact .ok _ (skipGap_suffix_of_eq ‹_›)
  · rename_i behind hgap
    have hmore := skipGap_behind hgap
    have hnext := hitems (h.mono (hmore.trans hrest'))
    exact hnext.convert _ hmore
  · exact .complain _ _

lemma readFields_step (hvalue : ReadsTame (readValue fuel))
    (hfields : ∀ fields, ReadsTame (readFields fuel · fields)) (fields : List (CodeText × Json)) :
    ReadsTame (readFields (fuel + 1) · fields) := by
  intro room rest h
  dsimp only
  rw [readFields.eq_def]
  dsimp only
  split
  · rename_i more
    have hmore := List.suffix_cons (CodePoint.scalar '"') more
    refine Reads.mono ((readString_reads _ more).bind fun key rest' hrest' => ?_) hmore
    dsimp only
    split
    · rename_i behind hcolon
      have hbehind := skipGap_behind hcolon
      have htame := h.mono ((hbehind.trans hrest').trans hmore)
      refine Reads.mono ((hvalue htame).bind fun value rest'' hrest'' => ?_) hbehind
      dsimp only
      split
      · exact .ok _ (skipGap_suffix_of_eq ‹_›)
      · rename_i behind' hcomma
        have hbehind' := skipGap_behind hcomma
        exact (hfields _ (htame.mono (hbehind'.trans hrest''))).mono hbehind'
      · exact .complain _ _
    · exact .complain _ _
  · exact .complain _ _

lemma readValue_step (hitems : ReadsTame (readItems fuel))
    (hfields : ∀ fields, ReadsTame (readFields fuel · fields)) :
    ReadsTame (readValue (fuel + 1)) := by
  intro room rest h
  rw [readValue.eq_def]
  dsimp only
  split
  · rename_i more
    exact (readString_reads _ more).convert _ (List.suffix_cons _ more)
  · rename_i more
    obtain ⟨hroom, hinner⟩ := h.opened rfl
    rw [if_neg hroom]
    refine Reads.mono ?_ (List.suffix_cons _ more)
    split
    · exact .ok _ (skipGap_suffix_of_eq ‹_›)
    · have hnext := hitems (hinner.mono (skipGap_suffix more))
      exact hnext.convert _ (skipGap_suffix more)
  · rename_i more
    obtain ⟨hroom, hinner⟩ := h.opened rfl
    rw [if_neg hroom]
    refine Reads.mono ?_ (List.suffix_cons _ more)
    split
    · exact .ok _ (skipGap_suffix_of_eq ‹_›)
    · have hnext := hfields [] (hinner.mono (skipGap_suffix more))
      exact hnext.convert _ (skipGap_suffix more)
  · exact readScalar_reads h

/-- By induction on the fuel, which each of the three readers hands on. -/
lemma readValue_reads (fuel : Nat) :
    ReadsTame (readValue fuel) ∧ ReadsTame (readItems fuel) ∧
      ∀ fields, ReadsTame (readFields fuel · fields) := by
  induction fuel with
  | zero =>
      refine ⟨fun _ => ?_, fun _ => ?_, fun fields _ _ _ => ?_⟩
      · exact .complain _ _
      · exact .complain _ _
      · exact .complain _ _
  | succ fuel ih =>
      obtain ⟨hvalue, hitems, hfields⟩ := ih
      exact ⟨readValue_step hitems hfields, readItems_step hvalue hitems,
        readFields_step hvalue hfields⟩

/-! ### Texts -/

/-- A complaint about a text. -/
def ReadError.IsComplaint (e : ReadError) : Prop :=
  ∃ complaint text offset, e = .malformed complaint text offset

/-- A tame text is read, or it is complained about. -/
theorem read_complains {text : CodeText} (h : Tame maxNesting text) :
    FailsOnly ReadError.IsComplaint (read text) := by
  have hvalue := (readValue_reads (2 * text.length + 2)).1 (h.mono (skipGap_suffix text))
  have hall : FailsOnly IsComplaint (readAll text) := by
    refine hvalue.complains.bind fun result _ => ?_
    dsimp only
    split
    · exact .ok _
    · exact .error ⟨_, _, rfl⟩
  refine hall.mapError ?_
  rintro _ ⟨complaint, remaining, rfl⟩
  exact ⟨complaint, text, _, rfl⟩

end Json

end Galley
