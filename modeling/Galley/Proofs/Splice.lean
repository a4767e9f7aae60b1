import Galley.Edit
import Galley.Proofs.Ordering
import Mathlib.Tactic

/-!
Splicing edits from the last to the first, and mapping offsets from the first to the last.

* `Fits`: edits in order, inside a range and without overlap;
* `Origin`, `Traced`, `spliceTraced`: splicing that keeps, with each character, the offset or the
  edit that it comes from; `spliceTraced_chars` says that it yields the text of `splice`;
* `splice_around`: a replacement stands in the spliced text as a whole;
* `foldr_applyWith`: applied last to first, edits that fit leave what the left-to-right `assemble`
  puts together, so no check refuses an edit and no pending offset moves;
* `sourceOffset_inverts_splice`: the way back finds the origin of every character, ends at the end
  of the source, and never goes back.
-/

namespace Galley

/-! ### Edits that fit -/

/-- The edits lie between two offsets, each behind the one before it, and none ends before it
begins. -/
def Fits (low high : Int) : List Edit → Prop
  | [] => low ≤ high
  | e :: es => low ≤ e.start ∧ e.start ≤ e.stop ∧ Fits e.stop high es

instance decidableFits (low high : Int) : (es : List Edit) → Decidable (Fits low high es)
  | [] => inferInstanceAs (Decidable (low ≤ high))
  | e :: es =>
      have := decidableFits e.stop high es
      inferInstanceAs (Decidable (low ≤ e.start ∧ e.start ≤ e.stop ∧ Fits e.stop high es))

lemma Fits.le {low high : Int} {es : List Edit} (h : Fits low high es) : low ≤ high := by
  induction es generalizing low with
  | nil => exact h
  | cons e es ih =>
      obtain ⟨h1, h2, h3⟩ := h
      have := ih h3
      omega

lemma Fits.le_start {low high : Int} {es : List Edit} (h : Fits low high es) :
    ∀ e ∈ es, low ≤ e.start := by
  induction es generalizing low with
  | nil => simp
  | cons e es ih =>
      obtain ⟨h1, h2, h3⟩ := h
      intro d hd
      rcases List.mem_cons.mp hd with rfl | hd
      · exact h1
      · exact (h1.trans h2).trans (ih h3 d hd)

/-- Edits that fit are in order already. -/
lemma Fits.orderEdits_eq {low high : Int} {es : List Edit} (h : Fits low high es) :
    orderEdits es = es := by
  refine orderBy_of_pairwise ?_
  induction es generalizing low with
  | nil => exact List.Pairwise.nil
  | cons e es ih =>
      obtain ⟨h1, h2, h3⟩ := h
      refine List.pairwise_cons.mpr ⟨fun d hd => ?_, ih h3⟩
      have := h3.le_start d hd
      simp only [decide_eq_true_eq]
      omega

/-! ### Splicing any members -/

section Members

variable {α : Type} (body : Edit → List α)

/-- Applies one edit to a list, where `body` tells what an edit puts in. -/
def Edit.applyWith (e : Edit) (xs : List α) : List α :=
  if 0 ≤ e.start ∧ e.start ≤ e.stop ∧ e.stop ≤ xs.length then
    xs.take e.start.toNat ++ body e ++ xs.drop e.stop.toNat
  else xs

/-- Assembles from left to right what comes out from the offset `pos` on. -/
def assemble (xs : List α) (pos : Nat) : List Edit → List α
  | [] => xs.drop pos
  | e :: es =>
      (xs.drop pos).take (e.start.toNat - pos) ++ body e ++ assemble xs e.stop.toNat es

/-- Edits that fit behind `pos` keep what is in front of it, and what follows is assembled from
left to right. -/
lemma foldr_applyWith (xs : List α) (es : List Edit) (pos : Nat)
    (h : Fits pos xs.length es) :
    es.foldr (Edit.applyWith body) xs = xs.take pos ++ assemble body xs pos es := by
  induction es generalizing pos with
  | nil => simp [assemble]
  | cons e es ih =>
      obtain ⟨h1, h2, h3⟩ := h
      have hstop : ((e.stop.toNat : Nat) : Int) = e.stop := by omega
      have hend := h3.le
      have hrest := ih e.stop.toNat (by rw [hstop]; exact h3)
      have hlen : (xs.take e.stop.toNat).length = e.stop.toNat := by
        rw [List.length_take]; omega
      have hguard : 0 ≤ e.start ∧ e.start ≤ e.stop ∧
          e.stop ≤ (xs.take e.stop.toNat ++ assemble body xs e.stop.toNat es).length := by
        rw [List.length_append, hlen]; omega
      have hfront : (xs.take e.stop.toNat ++ assemble body xs e.stop.toNat es).take e.start.toNat
          = xs.take pos ++ (xs.drop pos).take (e.start.toNat - pos) := by
        rw [List.take_append_of_le_length (by rw [hlen]; omega), List.take_take,
          ← List.take_add]
        congr 1; omega
      have hback : (xs.take e.stop.toNat ++ assemble body xs e.stop.toNat es).drop e.stop.toNat
          = assemble body xs e.stop.toNat es := by
        rw [List.drop_append_of_le_length (by rw [hlen]), List.drop_eq_nil_of_le (by rw [hlen]),
          List.nil_append]
      rw [List.foldr_cons, hrest, Edit.applyWith, if_pos hguard, hfront, hback, assemble]
      simp only [List.append_assoc]

/-- Splicing commutes with a map that turns what one kind of edit puts in into what the other
does. -/
lemma map_foldr_applyWith {β : Type} (f : α → β) (body' : Edit → List β)
    (hbody : ∀ e, (body e).map f = body' e) (xs : List α) (es : List Edit) :
    (es.foldr (Edit.applyWith body) xs).map f = es.foldr (Edit.applyWith body') (xs.map f) := by
  induction es with
  | nil => rfl
  | cons e es ih =>
      rw [List.foldr_cons, List.foldr_cons, ← ih, Edit.applyWith, Edit.applyWith, List.length_map]
      split
      · rw [List.map_append, List.map_append, List.map_take, List.map_drop, hbody]
      · rfl

/-- Every member of a spliced list was there before or was put in by an edit. -/
lemma mem_foldr_applyWith {xs : List α} {es : List Edit} {x : α}
    (h : x ∈ es.foldr (Edit.applyWith body) xs) : x ∈ xs ∨ ∃ e ∈ es, x ∈ body e := by
  induction es with
  | nil => exact Or.inl h
  | cons e es ih =>
      rw [List.foldr_cons, Edit.applyWith] at h
      split at h
      · rw [List.mem_append, List.mem_append] at h
        rcases h with (h | h) | h
        · rcases ih (List.mem_of_mem_take h) with h | ⟨e', he', h⟩
          · exact Or.inl h
          · exact Or.inr ⟨e', List.mem_cons_of_mem _ he', h⟩
        · exact Or.inr ⟨e, List.mem_cons_self, h⟩
        · rcases ih (List.mem_of_mem_drop h) with h | ⟨e', he', h⟩
          · exact Or.inl h
          · exact Or.inr ⟨e', List.mem_cons_of_mem _ he', h⟩
      · rcases ih h with h | ⟨e', he', h⟩
        · exact Or.inl h
        · exact Or.inr ⟨e', List.mem_cons_of_mem _ he', h⟩

end Members

/-- Applying an edit to a text is applying it to the list of its characters. -/
lemma Edit.apply_eq : Edit.apply = Edit.applyWith Edit.replacement := rfl

/-- Edits that fit a text are assembled from left to right. -/
lemma splice_eq_assemble {text : Text} {edits : List Edit}
    (h : Fits 0 text.length (orderEdits edits)) :
    splice text edits = assemble Edit.replacement text 0 (orderEdits edits) := by
  rw [splice, Edit.apply_eq, foldr_applyWith Edit.replacement text _ 0 h]
  rfl

/-! ### Where characters come from -/

/-- Where a character of a spliced text comes from: an offset of the text before, or the
replacement of an edit. -/
inductive Origin where
  | source (offset : Nat)
  | edit (e : Edit)
deriving DecidableEq

/-- A character with its origin. -/
structure Traced where
  char : Char
  origin : Origin
deriving DecidableEq

/-- A text whose characters come from their own offsets. -/
def traced (text : Text) : List Traced := text.mapIdx fun n c => ⟨c, .source n⟩

/-- What an edit puts in, marked as its own. -/
def Edit.tracedReplacement (e : Edit) : List Traced := e.replacement.map fun c => ⟨c, .edit e⟩

/-- Splices as `splice` does, and keeps the origins. -/
def spliceTraced (text : Text) (edits : List Edit) : List Traced :=
  (orderEdits edits).foldr (Edit.applyWith Edit.tracedReplacement) (traced text)

lemma length_traced (text : Text) : (traced text).length = text.length := by simp [traced]

lemma getElem?_traced (text : Text) (n : Nat) :
    (traced text)[n]? = text[n]?.map fun c => ⟨c, .source n⟩ := by
  simp [traced, List.getElem?_mapIdx]

lemma map_char_traced (text : Text) : (traced text).map Traced.char = text := by
  refine List.ext_getElem? fun n => ?_
  rw [List.getElem?_map, getElem?_traced]
  cases text[n]? <;> rfl

lemma length_tracedReplacement (e : Edit) :
    e.tracedReplacement.length = e.replacement.length := by
  simp [Edit.tracedReplacement]

lemma Edit.map_char (e : Edit) : e.tracedReplacement.map Traced.char = e.replacement := by
  simp [Edit.tracedReplacement, Function.comp_def]

/-- The origins do not change the text. -/
lemma spliceTraced_chars (text : Text) (edits : List Edit) :
    (spliceTraced text edits).map Traced.char = splice text edits := by
  rw [spliceTraced, map_foldr_applyWith _ Traced.char Edit.replacement Edit.map_char,
    map_char_traced, splice, Edit.apply_eq]

/-- Edits that fit a text are assembled from left to right with the origins. -/
lemma spliceTraced_eq_assemble {text : Text} {edits : List Edit}
    (h : Fits 0 text.length (orderEdits edits)) :
    spliceTraced text edits =
      assemble Edit.tracedReplacement (traced text) 0 (orderEdits edits) := by
  rw [spliceTraced, foldr_applyWith _ _ _ 0 (by rw [length_traced]; exact h)]
  rfl

/-- A character that comes from the source is the one at its offset there. -/
lemma getElem?_of_source_mem {text : Text} {edits : List Edit} {c : Char} {p : Nat}
    (h : (⟨c, .source p⟩ : Traced) ∈ spliceTraced text edits) : text[p]? = some c := by
  rcases mem_foldr_applyWith _ h with h | ⟨e, -, h⟩
  · obtain ⟨n, hn⟩ := List.mem_iff_getElem?.mp h
    rw [getElem?_traced, Option.map_eq_some_iff] at hn
    obtain ⟨d, hd, heq⟩ := hn
    simp only [Traced.mk.injEq, Origin.source.injEq] at heq
    rw [← heq.1, ← heq.2]
    exact hd
  · simp [Edit.tracedReplacement] at h

/-- A character that comes from an edit comes from one of the edits applied. -/
lemma edit_mem_of_mem {text : Text} {edits : List Edit} {c : Char} {e : Edit}
    (h : (⟨c, .edit e⟩ : Traced) ∈ spliceTraced text edits) : e ∈ orderEdits edits := by
  rcases mem_foldr_applyWith _ h with h | ⟨e', he', h⟩
  · simp [traced, List.mem_mapIdx] at h
  · simp only [Edit.tracedReplacement, List.mem_map, Traced.mk.injEq, Origin.edit.injEq] at h
    obtain ⟨d, -, -, rfl⟩ := h
    exact he'

/-- Where a member comes from an edit, what the edit puts in is assembled as a whole. -/
lemma assemble_around {text : Text} {es : List Edit} {pos k : Nat} {c : Char} {e : Edit}
    (h : (assemble Edit.tracedReplacement (traced text) pos es)[k]? = some ⟨c, .edit e⟩) :
    ∃ before behind, assemble Edit.tracedReplacement (traced text) pos es =
      before ++ e.tracedReplacement ++ behind ∧
        before.length ≤ k ∧ k < before.length + e.replacement.length := by
  have hsource : ∀ n : Nat, (traced text)[n]? ≠ some (⟨c, .edit e⟩ : Traced) := by
    intro n hn
    rw [getElem?_traced, Option.map_eq_some_iff] at hn
    obtain ⟨d, -, hd⟩ := hn
    simp at hd
  induction es generalizing pos k with
  | nil =>
      rw [assemble, List.getElem?_drop] at h
      exact absurd h (hsource _)
  | cons d es ih =>
      rw [assemble] at h ⊢
      have hfront : ∀ n : Nat, (((traced text).drop pos).take (d.start.toNat - pos))[n]? ≠
          some (⟨c, .edit e⟩ : Traced) := by
        intro n hn
        rw [List.getElem?_take] at hn
        split_ifs at hn
        rw [List.getElem?_drop] at hn
        exact hsource _ hn
      generalize ((traced text).drop pos).take (d.start.toNat - pos) = front at h hfront ⊢
      rw [List.append_assoc] at h
      by_cases hk : k < front.length
      · rw [List.getElem?_append_left hk] at h
        exact absurd h (hfront k)
      rw [List.getElem?_append_right (Nat.le_of_not_lt hk)] at h
      by_cases hk' : k - front.length < d.tracedReplacement.length
      · rw [List.getElem?_append_left hk', Edit.tracedReplacement, List.getElem?_map,
          Option.map_eq_some_iff] at h
        obtain ⟨c', -, hc'⟩ := h
        simp only [Traced.mk.injEq, Origin.edit.injEq] at hc'
        obtain ⟨-, rfl⟩ := hc'
        rw [length_tracedReplacement] at hk'
        exact ⟨front, _, rfl, Nat.le_of_not_lt hk, by omega⟩
      · rw [List.getElem?_append_right (Nat.le_of_not_lt hk')] at h
        obtain ⟨before, behind, heq, hle, hlt⟩ := ih h
        refine ⟨front ++ d.tracedReplacement ++ before, behind, ?_, ?_, ?_⟩
        · rw [heq]
          simp only [List.append_assoc]
        · simp only [List.length_append]
          omega
        · simp only [List.length_append]
          omega

/-- Where a character comes from an edit, the replacement stands in the spliced text as a whole. -/
lemma splice_around {text : Text} {edits : List Edit} {o : Nat} {c : Char} {e : Edit}
    (hfits : Fits 0 text.length (orderEdits edits))
    (h : (spliceTraced text edits)[o]? = some ⟨c, .edit e⟩) :
    ∃ before behind, splice text edits = before ++ e.replacement ++ behind ∧
      before.length ≤ o ∧ o < before.length + e.replacement.length := by
  have hsplice := spliceTraced_eq_assemble hfits
  rw [hsplice] at h
  obtain ⟨before, behind, heq, hle, hlt⟩ := assemble_around h
  refine ⟨before.map Traced.char, behind.map Traced.char, ?_, ?_, ?_⟩
  · rw [← spliceTraced_chars, hsplice, heq, List.map_append, List.map_append, Edit.map_char]
  · rwa [List.length_map]
  · rwa [List.length_map]

/-! ### The way back -/

/-- What the way back should give for a member of the assembled list: its origin, or the end of the
source behind the last member. -/
def Origin.place (length : Nat) : Option Traced → Int
  | some ⟨_, .source n⟩ => n
  | some ⟨_, .edit e⟩ => e.start
  | none => length

/-- From the offset `pos` of the source on, with `shift` added so far, the way back finds the place
of the `k`-th member that is assembled, and of the end behind the last one. -/
lemma sourceOffsetAux_assemble (text : Text) (es : List Edit) (pos : Nat) (shift : Int) (k : Nat)
    (h : Fits pos text.length es)
    (hk : k ≤ (assemble Edit.tracedReplacement (traced text) pos es).length) :
    sourceOffsetAux shift es (pos + shift + k) =
      Origin.place text.length
        (assemble Edit.tracedReplacement (traced text) pos es)[k]? := by
  induction es generalizing pos shift k with
  | nil =>
      have hp : (pos : Int) ≤ text.length := h
      simp only [assemble, List.length_drop, length_traced] at hk
      simp only [assemble, sourceOffsetAux, List.getElem?_drop, getElem?_traced]
      by_cases hlt : pos + k < text.length
      · rw [List.getElem?_eq_getElem hlt]
        simp only [Option.map_some, Origin.place]
        push_cast; omega
      · rw [List.getElem?_eq_none (by omega)]
        simp only [Option.map_none, Origin.place]
        omega
  | cons e es ih =>
      obtain ⟨h1, h2, h3⟩ := h
      have hend := h3.le
      have hstop : ((e.stop.toNat : Nat) : Int) = e.stop := by omega
      have hfront : (((traced text).drop pos).take (e.start.toNat - pos)).length
          = e.start.toNat - pos := by
        rw [List.length_take, List.length_drop, length_traced]; omega
      have hbody := length_tracedReplacement e
      rw [assemble] at hk ⊢
      rw [List.length_append, List.length_append, hfront, hbody] at hk
      rw [List.append_assoc, sourceOffsetAux]
      by_cases hk1 : k < e.start.toNat - pos
      · -- in front of the edit
        rw [if_pos (by omega), List.getElem?_append_left (by rw [hfront]; exact hk1),
          List.getElem?_take_of_lt hk1, List.getElem?_drop, getElem?_traced,
          List.getElem?_eq_getElem (by omega)]
        simp only [Option.map_some, Origin.place]
        push_cast; omega
      · rw [if_neg (by omega), List.getElem?_append_right (by rw [hfront]; omega), hfront]
        by_cases hk2 : k < e.start.toNat - pos + e.replacement.length
        · -- inside the replacement
          rw [if_pos (by omega), List.getElem?_append_left (by rw [hbody]; omega)]
          simp only [Edit.tracedReplacement, List.getElem?_map]
          rw [List.getElem?_eq_getElem (by omega)]
          rfl
        · -- behind the edit, where the rest is assembled from its end on
          rw [if_neg (by omega), List.getElem?_append_right (by rw [hbody]; omega), hbody]
          have hrest := ih e.stop.toNat (shift + e.growth)
            (k - (e.start.toNat - pos) - e.replacement.length) (by rw [hstop]; exact h3) (by omega)
          rw [← hrest, Edit.growth]
          congr 1
          omega

/-- The way back stays behind an offset that all the edits left lie behind. -/
lemma le_sourceOffsetAux {low high shift o : Int} {es : List Edit} (h : Fits low high es)
    (ho : low + shift ≤ o) : low ≤ sourceOffsetAux shift es o := by
  induction es generalizing low shift with
  | nil => rw [sourceOffsetAux]; omega
  | cons e es ih =>
      obtain ⟨h1, h2, h3⟩ := h
      rw [sourceOffsetAux]
      split_ifs with hfront hinside
      · omega
      · exact h1
      · have := @ih e.stop (shift + e.growth) h3 (by rw [Edit.growth]; omega)
        omega

/-- The way back never goes back. -/
lemma sourceOffsetAux_mono {low high shift o o' : Int} {es : List Edit} (h : Fits low high es)
    (ho : o ≤ o') : sourceOffsetAux shift es o ≤ sourceOffsetAux shift es o' := by
  induction es generalizing low shift with
  | nil => rw [sourceOffsetAux, sourceOffsetAux]; omega
  | cons e es ih =>
      obtain ⟨h1, h2, h3⟩ := h
      have hrest : e.start + shift + e.replacement.length ≤ o' →
          e.stop ≤ sourceOffsetAux (shift + e.growth) es o' := fun hle =>
        le_sourceOffsetAux h3 (by rw [Edit.growth]; omega)
      rw [sourceOffsetAux, sourceOffsetAux]
      split_ifs with hfront hfront' hinside' hinside hfront' hinside'
      · omega
      · omega
      · have := hrest (by omega)
        omega
      · omega
      · exact le_rfl
      · have := hrest (by omega)
        omega
      · omega
      · omega
      · exact ih h3

/-- The way back leads into the source. -/
lemma sourceOffset_nonneg {text : Text} {edits : List Edit} {o : Int}
    (h : Fits 0 text.length (orderEdits edits)) (ho : 0 ≤ o) : 0 ≤ sourceOffset edits o :=
  le_sourceOffsetAux h (by omega)

/-- Between edits that fit, the way back finds the place of every member of the traced text, and of
its end. -/
lemma sourceOffset_spliceTraced {text : Text} {edits : List Edit} {o : Nat}
    (h : Fits 0 text.length (orderEdits edits)) (ho : o ≤ (spliceTraced text edits).length) :
    sourceOffset edits o = Origin.place text.length (spliceTraced text edits)[o]? := by
  rw [spliceTraced_eq_assemble h] at ho ⊢
  have := sourceOffsetAux_assemble text (orderEdits edits) 0 0 o h ho
  rw [← this, sourceOffset]
  congr 1
  push_cast; omega

lemma length_spliceTraced (text : Text) (edits : List Edit) :
    (spliceTraced text edits).length = (splice text edits).length := by
  rw [← spliceTraced_chars, List.length_map]

/-- The way back takes the end to the end of the source. -/
lemma sourceOffset_length {text : Text} {edits : List Edit}
    (h : Fits 0 text.length (orderEdits edits)) :
    sourceOffset edits (splice text edits).length = text.length := by
  rw [← length_spliceTraced, sourceOffset_spliceTraced h le_rfl, List.getElem?_eq_none le_rfl]
  rfl

/-- The way back inverts splicing: for edits that fit the text, it takes every character of the
spliced text that comes from the source to its offset there, every character of a replacement to
the start of its edit, and the end to the end of the source; and it never goes back. -/
theorem sourceOffset_inverts_splice (text : Text) (edits : List Edit)
    (h : Fits 0 text.length (orderEdits edits)) :
    (spliceTraced text edits).map Traced.char = splice text edits ∧
      (∀ (o : Nat) (c : Char) (p : Nat), (spliceTraced text edits)[o]? = some ⟨c, .source p⟩ →
        text[p]? = some c ∧ sourceOffset edits o = p) ∧
      (∀ (o : Nat) (c : Char) (e : Edit), (spliceTraced text edits)[o]? = some ⟨c, .edit e⟩ →
        e ∈ edits ∧ sourceOffset edits o = e.start) ∧
      sourceOffset edits (splice text edits).length = text.length ∧
      ∀ o o' : Int, o ≤ o' → sourceOffset edits o ≤ sourceOffset edits o' := by
  refine ⟨spliceTraced_chars text edits, ?_, ?_, sourceOffset_length h,
    fun o o' ho => sourceOffsetAux_mono h ho⟩
  · intro o c p ho
    have hlt := (List.getElem?_eq_some_iff.mp ho).1
    refine ⟨getElem?_of_source_mem (List.mem_iff_getElem?.mpr ⟨o, ho⟩), ?_⟩
    rw [sourceOffset_spliceTraced h hlt.le, ho]
    rfl
  · intro o c e ho
    have hlt := (List.getElem?_eq_some_iff.mp ho).1
    have hmem := edit_mem_of_mem (List.mem_iff_getElem?.mpr ⟨o, ho⟩)
    refine ⟨(orderBy_perm _ edits).mem_iff.mp hmem, ?_⟩
    rw [sourceOffset_spliceTraced h hlt.le, ho]
    rfl

/-- Two insertions at one offset listed before an edit in front of them, a deletion that ends where
the last edit begins, and a replacement up to the end. -/
theorem sourceOffset_inverts_splice_abcdef :
    let edits : List Edit := [⟨2, 2, ['x']⟩, ⟨2, 2, ['y', 'z']⟩, ⟨0, 1, []⟩, ⟨2, 4, []⟩,
      ⟨4, 6, ['e', 'E']⟩]
    let text := "abcdef".toList
    Fits 0 text.length (orderEdits edits) ∧ splice text edits = "bxyzeE".toList ∧
      (spliceTraced text edits).map Traced.char = splice text edits ∧
      sourceOffset edits 0 = 1 ∧ sourceOffset edits 3 = 2 ∧ sourceOffset edits 5 = 4 ∧
      sourceOffset edits (splice text edits).length = text.length := by
  intro edits text
  have hfits : Fits 0 text.length (orderEdits edits) := by decide
  obtain ⟨hchars, hsource, hedit, hend, -⟩ := sourceOffset_inverts_splice text edits hfits
  exact ⟨hfits, by decide, hchars, (hsource 0 'b' 1 (by decide)).2,
    (hedit 3 'z' ⟨2, 2, ['y', 'z']⟩ (by decide)).2, (hedit 5 'E' ⟨4, 6, ['e', 'E']⟩ (by decide)).2,
    hend⟩

end Galley
