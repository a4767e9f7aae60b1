import Galley.LineTable
import Mathlib.Data.List.TakeWhile
import Mathlib.Tactic

/-!
The table of lines, as the prefix sums of the lines of a text.

* `segments`: the lines of a text, each with its break; `joined_segments` puts them together again,
  and `segments_joined` cuts them where they were put together;
* `splitAt_unified`: with line feeds for all breaks, a text is cut into the same lines at these;
* `lineStart_eq`, `lineText_eq`: what the table says of a line is what the lines in front of it and
  the line itself say;
* `lineColumn_eq`: an offset in a line is on that line;
* `byteOffset_eq`: the octets before an offset are those of the text before it;
* `position_mono`, `position_inj`: positions never go back, and no two offsets have one position.
-/

namespace Galley

/-! ### Octets -/

lemma utf8Size_append (s t : Text) : utf8Size (s ++ t) = utf8Size s + utf8Size t := by
  induction s with
  | nil => simp [utf8Size]
  | cons c cs ih =>
      simp only [utf8Size, List.cons_append, List.foldr_cons] at ih ⊢
      omega

lemma utf8Size_take_mono (t : Text) {m n : Nat} (h : m ≤ n) :
    utf8Size (t.take m) ≤ utf8Size (t.take n) := by
  have hsplit : t.take n = t.take m ++ (t.drop m).take (n - m) := by
    rw [← List.take_add]
    congr 1
    omega
  rw [hsplit, utf8Size_append]
  omega

lemma utf8Size_take_lt {t : Text} {m n : Nat} (h : m < n) (hn : n ≤ t.length) :
    utf8Size (t.take m) < utf8Size (t.take n) := by
  have hnext : t.take (m + 1) = t.take m ++ [t[m]] := List.take_succ_eq_append_getElem (by omega)
  have hsize : utf8Size (t.take (m + 1)) = utf8Size (t.take m) + t[m].utf8Size := by
    rw [hnext, utf8Size_append]
    simp [utf8Size]
  have hmono := utf8Size_take_mono t (m := m + 1) h
  have hpos := Char.utf8Size_pos t[m]
  omega

/-! ### Lines with their breaks -/

/-- A line and the break behind it. -/
structure Segment where
  line : Text
  close : Text

/-- The text of a line with its break. -/
def Segment.text (s : Segment) : Text := s.line ++ s.close

/-- The line with one more character in front. -/
def Segment.cons (c : Char) (s : Segment) : Segment := { s with line := c :: s.line }

/-- The lines of a text with their breaks; the last one has none. -/
def segments : Text → List Segment
  | [] => [⟨[], []⟩]
  | '\r' :: '\n' :: cs => ⟨[], ['\r', '\n']⟩ :: segments cs
  | c :: cs =>
      if isLineBreak c then ⟨[], [c]⟩ :: segments cs
      else
        match segments cs with
        | [] => [⟨[c], []⟩]
        | s :: ss => s.cons c :: ss

/-- The text of lines. -/
def joined (ss : List Segment) : Text := ss.flatMap Segment.text

/-- The text has no line break in it. -/
def Plain (t : Text) : Prop := ∀ c ∈ t, isLineBreak c = false

instance decidablePlain (t : Text) : Decidable (Plain t) :=
  decidable_of_iff (t.all (!isLineBreak ·) = true) (by simp [Plain])

/-- Lines of a text: all but the last one end with a break, and what looks like two breaks is not
one. -/
def WellClosed : List Segment → Prop
  | [] => False
  | [s] => Plain s.line ∧ s.close = []
  | s :: t :: ss =>
      Plain s.line ∧ (s.close = ['\n'] ∨ s.close = ['\r', '\n'] ∨
        s.close = ['\r'] ∧ (joined (t :: ss)).head? ≠ some '\n') ∧ WellClosed (t :: ss)

lemma plain_nil : Plain [] := by simp [Plain]

lemma plain_cons {c : Char} {t : Text} : Plain (c :: t) ↔ isLineBreak c = false ∧ Plain t := by
  simp [Plain]

lemma plain_append {s t : Text} : Plain (s ++ t) ↔ Plain s ∧ Plain t := by
  simp [Plain, or_imp, forall_and]

/-- A line in front of lines keeps them lines of a text. -/
lemma wellClosed_cons {s : Segment} {ss : List Segment} (hss : ss ≠ []) :
    WellClosed (s :: ss) ↔ Plain s.line ∧ (s.close = ['\n'] ∨ s.close = ['\r', '\n'] ∨
      s.close = ['\r'] ∧ (joined ss).head? ≠ some '\n') ∧ WellClosed ss := by
  cases ss with
  | nil => exact absurd rfl hss
  | cons t ss => rfl

lemma WellClosed.ne_nil {ss : List Segment} (h : WellClosed ss) : ss ≠ [] := by
  rintro rfl
  exact h

/-- The lines of a text, put together, are the text, and they are closed as lines of a text are. -/
lemma segments_spec (t : Text) : joined (segments t) = t ∧ WellClosed (segments t) := by
  induction t using segments.induct with
  | case1 => exact ⟨rfl, plain_nil, rfl⟩
  | case2 cs ih =>
      obtain ⟨hjoin, hclosed⟩ := ih
      rw [segments, wellClosed_cons hclosed.ne_nil]
      refine ⟨?_, plain_nil, Or.inr (Or.inl rfl), hclosed⟩
      rw [joined, List.flatMap_cons, ← joined, hjoin]
      rfl
  | case3 c cs hpair hbreak ih =>
      obtain ⟨hjoin, hclosed⟩ := ih
      rw [segments.eq_3 _ _ hpair, if_pos hbreak, wellClosed_cons hclosed.ne_nil]
      refine ⟨?_, plain_nil, ?_, hclosed⟩
      · rw [joined, List.flatMap_cons, ← joined, hjoin]
        rfl
      · simp only [isLineBreak, Bool.or_eq_true, beq_iff_eq] at hbreak
        rcases hbreak with rfl | rfl
        · exact Or.inl rfl
        · refine Or.inr (Or.inr ⟨rfl, fun hhead => ?_⟩)
          rw [hjoin] at hhead
          obtain ⟨tail, htail⟩ := List.head?_eq_some_iff.mp hhead
          exact hpair tail rfl htail
  | case4 c cs hpair hbreak hnil ih =>
      exact absurd hnil ih.2.ne_nil
  | case5 c cs hpair hbreak s ss hcons ih =>
      obtain ⟨hjoin, hclosed⟩ := ih
      rw [segments.eq_3 _ _ hpair, if_neg hbreak, hcons]
      rw [hcons] at hjoin hclosed
      have hc : isLineBreak c = false := Bool.eq_false_iff.mpr hbreak
      refine ⟨?_, ?_⟩
      · rw [← hjoin]
        rfl
      · cases ss with
        | nil => exact ⟨plain_cons.mpr ⟨hc, hclosed.1⟩, hclosed.2⟩
        | cons s' ss => exact ⟨plain_cons.mpr ⟨hc, hclosed.1⟩, hclosed.2⟩

lemma joined_segments (t : Text) : joined (segments t) = t := (segments_spec t).1

/-- If a text has its breaks made line feeds, and its other characters changed one by one, but none
to a line feed, then the line feeds cut it into its lines. -/
lemma splitAt_unified {f : Char → Char} {g : Text → Text} (hnil : g [] = [])
    (hpair : ∀ cs, g ('\r' :: '\n' :: cs) = '\n' :: g cs)
    (hcons : ∀ c cs, (∀ ds, c = '\r' → cs = '\n' :: ds → False) →
      g (c :: cs) = (if isLineBreak c then '\n' else f c) :: g cs)
    (hf : ∀ c, isLineBreak c = false → f c ≠ '\n') (t : Text) :
    splitAt (· == '\n') (g t) = (segments t).map fun s => s.line.map f := by
  induction t using segments.induct with
  | case1 =>
      rw [hnil]
      rfl
  | case2 cs ih =>
      rw [hpair, segments, splitAt, ih]
      cases hsegments : segments cs with
      | nil => exact absurd hsegments (segments_spec cs).2.ne_nil
      | cons s ss => rfl
  | case3 c cs hlone hbreak ih =>
      rw [hcons c cs hlone, if_pos hbreak, segments.eq_3 _ _ hlone, if_pos hbreak, splitAt, ih]
      cases hsegments : segments cs with
      | nil => exact absurd hsegments (segments_spec cs).2.ne_nil
      | cons s ss => rfl
  | case4 c cs hlone hbreak hempty ih => exact absurd hempty (segments_spec cs).2.ne_nil
  | case5 c cs hlone hbreak s ss hfirst ih =>
      have hfeed : (f c == '\n') = false := beq_false_of_ne (hf c (Bool.eq_false_iff.mpr hbreak))
      rw [hcons c cs hlone, if_neg hbreak, segments.eq_3 _ _ hlone, if_neg hbreak, splitAt, ih,
        hfirst]
      simp [hfeed, Segment.cons]

/-- A line is cut off in front of what follows its break. -/
lemma segments_append {s : Segment} {rest : Text} (hplain : Plain s.line)
    (hclose : s.close = ['\n'] ∨ s.close = ['\r', '\n'] ∨
      s.close = ['\r'] ∧ rest.head? ≠ some '\n') :
    segments (s.text ++ rest) = s :: segments rest := by
  obtain ⟨line, close⟩ := s
  dsimp only at hplain hclose
  rw [Segment.text, List.append_assoc]
  dsimp only
  induction line with
  | nil =>
      rw [List.nil_append]
      rcases hclose with rfl | rfl | ⟨rfl, hhead⟩
      · rfl
      · rfl
      · rw [List.singleton_append, segments.eq_3 _ _ fun cs _ hcs => hhead (by rw [hcs]; rfl)]
        rfl
  | cons c line ih =>
      obtain ⟨hc, hline⟩ := plain_cons.mp hplain
      have hpair : ∀ cs, c = '\r' → line ++ (close ++ rest) = '\n' :: cs → False := by
        rintro cs rfl -
        simp [isLineBreak] at hc
      rw [List.cons_append, segments.eq_3 _ _ hpair, hc, ih hline]
      rfl

/-- Lines of a text, put together, are cut at the same places again. -/
lemma segments_joined {ss : List Segment} (h : WellClosed ss) : segments (joined ss) = ss := by
  induction ss with
  | nil => exact absurd h id
  | cons s ss ih =>
      cases ss with
      | nil =>
          obtain ⟨hplain, hclose⟩ := h
          obtain ⟨line, close⟩ := s
          dsimp only at hplain hclose
          subst hclose
          rw [joined, List.flatMap_singleton, Segment.text, List.append_nil]
          induction line with
          | nil => rfl
          | cons c line ih =>
              obtain ⟨hc, hline⟩ := plain_cons.mp hplain
              have hpair : ∀ cs, c = '\r' → line = '\n' :: cs → False := by
                rintro cs rfl -
                simp [isLineBreak] at hc
              rw [segments.eq_3 _ _ hpair, hc, ih hline]
              rfl
      | cons t ss =>
          obtain ⟨hplain, hclose, hclosed⟩ := h
          rw [joined, List.flatMap_cons, ← joined, segments_append hplain hclose, ih hclosed]

lemma joined_append (ss ss' : List Segment) : joined (ss ++ ss') = joined ss ++ joined ss' :=
  List.flatMap_append

/-- The text of some lines is in front of that of the others. -/
lemma joined_take_drop (ss : List Segment) (n : Nat) :
    joined (ss.take n) ++ joined (ss.drop n) = joined ss := by
  rw [← joined_append, List.take_append_drop]

/-- Lines of a text without the first ones are lines of a text. -/
lemma wellClosed_drop {ss : List Segment} {n : Nat} (h : WellClosed ss) (hn : n < ss.length) :
    WellClosed (ss.drop n) := by
  induction n generalizing ss with
  | zero => exact h
  | succ n ih =>
      cases ss with
      | nil => simp at hn
      | cons s ss =>
          have hlt : n < ss.length := by simpa using hn
          have hne : ss ≠ [] := by
            rintro rfl
            simp at hlt
          exact ih ((wellClosed_cons hne).mp h).2.2 hlt

/-- In front of a line that is not the first one stands a break. -/
lemma break_joined_take {ss : List Segment} {n : Nat} (h : WellClosed ss) (hn : n + 1 < ss.length) :
    ∃ before c, joined (ss.take (n + 1)) = before ++ [c] ∧ isLineBreak c = true := by
  induction n generalizing ss with
  | zero =>
      match ss with
      | [] => simp at hn
      | [s] => simp at hn
      | s :: t :: ss =>
          obtain ⟨-, hclose, -⟩ := h
          have hjoined : joined ((s :: t :: ss).take 1) = s.line ++ s.close := by
            simp [joined, Segment.text]
          rw [hjoined]
          rcases hclose with hclose | hclose | ⟨hclose, -⟩ <;> rw [hclose]
          · exact ⟨s.line, '\n', rfl, rfl⟩
          · exact ⟨s.line ++ ['\r'], '\n', by simp, rfl⟩
          · exact ⟨s.line, '\r', rfl, rfl⟩
  | succ n ih =>
      cases ss with
      | nil => simp at hn
      | cons s ss =>
          have hlt : n + 1 < ss.length := by simpa using hn
          have hne : ss ≠ [] := by
            rintro rfl
            simp at hlt
          obtain ⟨before, c, hbefore, hc⟩ := ih ((wellClosed_cons hne).mp h).2.2 hlt
          refine ⟨s.text ++ before, c, ?_, hc⟩
          rw [List.take_succ_cons, joined, List.flatMap_cons, ← joined, hbefore, List.append_assoc]

/-- Up to its break, a text is its first line. -/
lemma takeWhile_joined {s : Segment} {ss : List Segment} (h : WellClosed (s :: ss)) :
    (joined (s :: ss)).takeWhile (!isLineBreak ·) = s.line := by
  cases ss with
  | nil =>
      obtain ⟨hplain, hclose⟩ := h
      have hline : joined [s] = s.line := by simp [joined, Segment.text, hclose]
      rw [hline]
      refine List.takeWhile_eq_self_iff.mpr fun c hc => ?_
      simp [hplain c hc]
  | cons t ss =>
      obtain ⟨hplain, hclose, -⟩ := h
      rw [joined, List.flatMap_cons, Segment.text, List.append_assoc,
        List.takeWhile_append_of_pos fun c hc => by simp [hplain c hc]]
      rcases hclose with hclose | hclose | ⟨hclose, -⟩ <;> simp [hclose, isLineBreak]

/-! ### Starts of lines -/

/-- The starts of lines, the first of which starts at a place. -/
def startsFrom (place : LineStart) : List Segment → List LineStart
  | [] => []
  | s :: ss => place ::
      startsFrom ⟨place.offset + s.text.length, place.bytes + utf8Size s.text⟩ ss

/-- The table holds the starts of the lines. -/
lemma starts_eq (place : LineStart) (t : Text) :
    place :: lineStartsAux place t = startsFrom place (segments t) := by
  induction t using segments.induct generalizing place with
  | case1 => rfl
  | case2 cs ih =>
      rw [lineStartsAux, segments, startsFrom, ← ih]
      rfl
  | case3 c cs hpair hbreak ih =>
      rw [lineStartsAux.eq_3 _ _ _ hpair, segments.eq_3 _ _ hpair, if_pos hbreak, if_pos hbreak,
        startsFrom, ← ih]
      simp [Segment.text, utf8Size]
  | case4 c cs hpair hbreak hnil ih => exact absurd hnil (segments_spec cs).2.ne_nil
  | case5 c cs hpair hbreak s ss hcons ih =>
      have hrest := ih ⟨place.offset + 1, place.bytes + c.utf8Size⟩
      rw [hcons, startsFrom, List.cons.injEq] at hrest
      rw [lineStartsAux.eq_3 _ _ _ hpair, segments.eq_3 _ _ hpair, if_neg hbreak, if_neg hbreak,
        hcons]
      dsimp only
      rw [startsFrom, hrest.2]
      congr 2
      simp only [Segment.text, Segment.cons, List.cons_append, List.length_cons, utf8Size,
        List.foldr_cons, LineStart.mk.injEq]
      omega

lemma length_startsFrom (place : LineStart) (ss : List Segment) :
    (startsFrom place ss).length = ss.length := by
  induction ss generalizing place with
  | nil => rfl
  | cons s ss ih => rw [startsFrom, List.length_cons, ih, List.length_cons]

/-- A line starts behind the lines in front of it. -/
lemma getElem?_startsFrom (place : LineStart) (ss : List Segment) {n : Nat} (h : n < ss.length) :
    (startsFrom place ss)[n]? = some ⟨place.offset + (joined (ss.take n)).length,
      place.bytes + utf8Size (joined (ss.take n))⟩ := by
  induction ss generalizing place n with
  | nil => simp at h
  | cons s ss ih =>
      cases n with
      | zero => simp [startsFrom, joined, utf8Size]
      | succ n =>
          have hn : n < ss.length := by simpa using h
          rw [startsFrom, List.getElem?_cons_succ, ih _ hn, List.take_succ_cons]
          simp only [joined, List.flatMap_cons, List.length_append, utf8Size_append,
            Option.some.injEq, LineStart.mk.injEq]
          omega

namespace LineTable

variable (t : Text)

lemma starts_ofText : (ofText t).starts = startsFrom ⟨0, 0⟩ (segments t) :=
  starts_eq ⟨0, 0⟩ t

/-- A line starts behind the lines in front of it, and lines past the last one at the end. -/
lemma lineStart_eq (n : Nat) : (ofText t).lineStart n = (joined ((segments t).take n)).length := by
  rw [lineStart, starts_ofText]
  by_cases h : n < (segments t).length
  · rw [getElem?_startsFrom _ _ h]
    simp
  · rw [List.getElem?_eq_none (by rw [length_startsFrom]; omega), List.take_of_length_le (by omega),
      joined_segments]
    rfl

lemma lineStart_mono {m n : Nat} (h : m ≤ n) :
    (ofText t).lineStart m ≤ (ofText t).lineStart n := by
  rw [lineStart_eq, lineStart_eq]
  have hsplit := joined_take_drop ((segments t).take n) m
  rw [List.take_take, Nat.min_eq_left h] at hsplit
  rw [← hsplit, List.length_append]
  exact Nat.le_add_right _ _

lemma lineStart_le (n : Nat) : (ofText t).lineStart n ≤ t.length := by
  have hlength := congrArg List.length (joined_take_drop (segments t) n)
  rw [joined_segments, List.length_append] at hlength
  rw [lineStart_eq]
  omega

/-- What is in front of the start of a line are the lines in front of it. -/
lemma take_lineStart (n : Nat) :
    t.take ((ofText t).lineStart n) = joined ((segments t).take n) := by
  have hsplit := joined_take_drop (segments t) n
  rw [joined_segments] at hsplit
  rw [lineStart_eq]
  generalize joined ((segments t).take n) = before at hsplit ⊢
  rw [← hsplit, List.take_left]

/-- What is left of a text from the start of a line on are the lines from there on. -/
lemma drop_lineStart (n : Nat) :
    t.drop ((ofText t).lineStart n) = joined ((segments t).drop n) := by
  have hsplit := joined_take_drop (segments t) n
  rw [joined_segments] at hsplit
  rw [lineStart_eq]
  generalize joined ((segments t).take n) = before at hsplit ⊢
  generalize joined ((segments t).drop n) = behind at hsplit ⊢
  rw [← hsplit, List.drop_left]

/-- The text of a line is the line. -/
lemma lineText_eq (n : Nat) :
    (ofText t).lineText n = ((segments t)[n]?.map Segment.line).getD [] := by
  have hdrop := drop_lineStart t n
  rw [lineText, show (ofText t).text = t from rfl, hdrop]
  by_cases h : n < (segments t).length
  · have hclosed := wellClosed_drop (segments_spec t).2 h
    rw [List.drop_eq_getElem_cons h] at hclosed ⊢
    rw [List.getElem?_eq_getElem h]
    exact takeWhile_joined hclosed
  · rw [List.drop_eq_nil_of_le (by omega), List.getElem?_eq_none (by omega)]
    rfl

/-- A line ends before the next one starts. -/
lemma lineText_le (n : Nat) :
    (ofText t).lineStart n + ((ofText t).lineText n).length ≤ (ofText t).lineStart (n + 1) := by
  rw [lineText_eq, lineStart_eq, lineStart_eq]
  by_cases h : n < (segments t).length
  · rw [List.take_add_one, joined_append, List.getElem?_eq_getElem h]
    simp only [Option.map_some, Option.getD_some, Option.toList_some, joined, List.flatMap_cons,
      List.flatMap_nil, List.append_nil, List.length_append, Segment.text]
    omega
  · rw [List.getElem?_eq_none (by omega), List.take_of_length_le (by omega),
      List.take_of_length_le (by omega)]
    exact le_rfl

/-- A line that is not the last one ends in front of its break. -/
lemma lineText_lt {n : Nat} (h : n + 1 < (segments t).length) :
    (ofText t).lineStart n + ((ofText t).lineText n).length < (ofText t).lineStart (n + 1) := by
  have hclosed := wellClosed_drop (segments_spec t).2 (Nat.lt_of_succ_lt h)
  rw [List.drop_eq_getElem_cons (Nat.lt_of_succ_lt h),
    wellClosed_cons (by simpa using h)] at hclosed
  obtain ⟨-, hclose, -⟩ := hclosed
  have hpos : 0 < (segments t)[n].close.length := by
    rcases hclose with hclose | hclose | ⟨hclose, -⟩ <;> simp [hclose]
  rw [lineText_eq, lineStart_eq, lineStart_eq, List.take_add_one, joined_append,
    List.getElem?_eq_getElem (Nat.lt_of_succ_lt h)]
  simp only [Option.map_some, Option.getD_some, Option.toList_some, joined, List.flatMap_cons,
    List.flatMap_nil, List.append_nil, List.length_append, Segment.text]
  omega

/-- A character of a line stands in the text. -/
lemma getElem?_of_lineText {n k : Nat} {c : Char} (h : ((ofText t).lineText n)[k]? = some c) :
    t[(ofText t).lineStart n + k]? = some c := by
  obtain ⟨rest, hrest⟩ : (ofText t).lineText n <+: t.drop ((ofText t).lineStart n) :=
    List.takeWhile_prefix _
  rw [← List.getElem?_drop, ← hrest,
    List.getElem?_append_left (List.getElem?_eq_some_iff.mp h).1, h]

/-- In front of the start of a line, but for the start and the end of the text, stands a break. -/
lemma break_lineStart {n : Nat} (hpos : 0 < (ofText t).lineStart n)
    (hlt : (ofText t).lineStart n < t.length) :
    ∃ c, t[(ofText t).lineStart n - 1]? = some c ∧ isLineBreak c = true := by
  have hn : n < (segments t).length := by
    by_contra hle
    rw [lineStart_eq, List.take_of_length_le (Nat.le_of_not_lt hle), joined_segments] at hlt
    exact Nat.lt_irrefl _ hlt
  have hsplit := joined_take_drop (segments t) n
  rw [joined_segments] at hsplit
  have hstart := lineStart_eq t n
  cases n with
  | zero => simp [lineStart_eq, joined] at hpos
  | succ n =>
      obtain ⟨before, c, hbefore, hc⟩ := break_joined_take (segments_spec t).2 hn
      rw [hbefore] at hsplit hstart
      refine ⟨c, ?_, hc⟩
      rw [hstart, ← hsplit]
      simp

/-- A line with an offset in a stretch of a text without breaks, a break following, ends with the
stretch. -/
lemma lineText_of_stretch {t before stretch behind : Text}
    (ht : t = before ++ (stretch ++ '\n' :: behind)) (hstretch : Plain stretch) {n k : Nat}
    (hk : k ≤ ((ofText t).lineText n).length) (hlow : before.length ≤ (ofText t).lineStart n + k)
    (hhigh : (ofText t).lineStart n + k ≤ before.length + stretch.length) :
    ∃ front, (ofText t).lineText n = front ++ stretch ∧
      (ofText t).lineStart n + front.length = before.length := by
  have hbreak := break_lineStart t (n := n)
  have hlength := congrArg List.length ht
  simp only [List.length_append, List.length_cons] at hlength
  rw [lineText] at hk ⊢
  rw [show (ofText t).text = t from rfl] at hk ⊢
  generalize (ofText t).lineStart n = start at *
  -- the line starts no later than the stretch, as there is a break in front of its start
  have hstart : start ≤ before.length := by
    by_contra hlt
    obtain ⟨c, hget, hc⟩ := hbreak (by omega) (by omega)
    rw [ht, List.getElem?_append_right (by omega), List.getElem?_append_left (by omega)] at hget
    rw [hstretch c (List.mem_of_getElem? hget)] at hc
    simp at hc
  rw [ht, List.drop_append_of_le_length hstart] at hk ⊢
  have hfront : (before.drop start).length = before.length - start := List.length_drop
  generalize before.drop start = front at hk hfront ⊢
  -- the line reaches to the stretch, so there is no break in front of the stretch
  have hplain : ∀ c ∈ front, (!isLineBreak c) = true := by
    have htaken := List.takeWhile_prefix (l := front ++ (stretch ++ '\n' :: behind))
      (!isLineBreak ·)
    have hle := List.prefix_of_prefix_length_le (List.prefix_append front _) htaken (by omega)
    exact fun c hc => List.mem_takeWhile_imp (p := (!isLineBreak ·)) (hle.subset hc)
  refine ⟨front, ?_, by omega⟩
  rw [List.takeWhile_append_of_pos hplain,
    List.takeWhile_append_of_pos fun c hc => by simp [hstretch c hc]]
  simp [isLineBreak]

/-- The line of an offset starts at or before it, and the octets before its start are those of the
text before it. -/
lemma lineAt_start (offset : Nat) :
    ((ofText t).lineAt offset).2.offset ≤ offset ∧
      ((ofText t).lineAt offset).2.bytes =
        utf8Size (t.take ((ofText t).lineAt offset).2.offset) := by
  rw [lineAt]
  dsimp only
  cases hlast : ((ofText t).startsUpTo offset).getLast? with
  | none => simp [utf8Size]
  | some s =>
      have hmem := List.mem_of_getLast? hlast
      rw [startsUpTo, starts_ofText] at hmem
      refine ⟨by simpa using List.mem_takeWhile_imp hmem, ?_⟩
      obtain ⟨n, hn⟩ := List.mem_iff_getElem?.mp ((List.takeWhile_sublist _).mem hmem)
      have hlt : n < (segments t).length := by
        have := (List.getElem?_eq_some_iff.mp hn).1
        rwa [length_startsFrom] at this
      rw [getElem?_startsFrom _ _ hlt, Option.some.injEq] at hn
      have hsplit := joined_take_drop (segments t) n
      rw [joined_segments] at hsplit
      generalize joined ((segments t).take n) = before at hsplit hn
      rw [Option.getD_some, ← hn]
      simp only [Nat.zero_add]
      rw [← hsplit, List.take_left]

/-- An offset in a line is on that line. -/
lemma lineColumn_eq {n k : Nat} (hn : n < (segments t).length)
    (hk : k ≤ ((ofText t).lineText n).length) :
    (ofText t).lineColumn ((ofText t).lineStart n + k) = (n, k) := by
  have hlength : (ofText t).starts.length = (segments t).length := by
    rw [starts_ofText, length_startsFrom]
  have hstart : ∀ m (hm : m < (ofText t).starts.length),
      ((ofText t).starts[m]).offset = (ofText t).lineStart m := by
    intro m hm
    rw [lineStart, List.getElem?_eq_getElem hm]
  have hpassed : (ofText t).startsUpTo ((ofText t).lineStart n + k) =
      (ofText t).starts.take (n + 1) := by
    rw [startsUpTo, ← List.take_append_drop (n + 1) (ofText t).starts]
    rw [List.takeWhile_append_of_pos]
    · rw [List.take_append_drop]
      refine List.append_right_eq_self.mpr ?_
      by_cases hlast : n + 1 < (ofText t).starts.length
      · have hlt := lineText_lt t (hlength ▸ hlast)
        rw [List.drop_eq_getElem_cons hlast, List.takeWhile_cons_of_neg]
        rw [hstart _ hlast, decide_eq_true_eq]
        omega
      · rw [List.drop_eq_nil_of_le (Nat.le_of_not_lt hlast), List.takeWhile_nil]
    · intro s hs
      obtain ⟨m, hm, rfl⟩ := List.getElem_of_mem hs
      rw [List.length_take] at hm
      rw [List.getElem_take, hstart m (by omega), decide_eq_true_eq]
      have := lineStart_mono t (m := m) (n := n) (by omega)
      omega
  have hget : n < (ofText t).starts.length := hlength ▸ hn
  have hlast : ((ofText t).starts.take (n + 1)).getLast? = some (ofText t).starts[n] := by
    rw [List.getLast?_take, if_neg (Nat.succ_ne_zero n), Nat.add_sub_cancel,
      List.getElem?_eq_getElem hget, Option.some_or]
  rw [lineColumn, lineAt, hpassed, hlast, List.length_take, Option.getD_some]
  dsimp only
  rw [hstart n hget, Prod.mk.injEq]
  omega

/-- The octets before an offset are those of the text before it. -/
lemma byteOffset_eq (offset : Nat) : (ofText t).byteOffset offset = utf8Size (t.take offset) := by
  obtain ⟨hle, hbytes⟩ := lineAt_start t offset
  rw [byteOffset]
  generalize (ofText t).lineAt offset = found at hle hbytes ⊢
  obtain ⟨line, start⟩ := found
  dsimp only at hle hbytes ⊢
  rw [hbytes, ← utf8Size_append, show (ofText t).text = t from rfl, ← List.take_add]
  congr 2
  omega

/-- Positions never go back. -/
lemma position_mono {m n : Nat} (h : m ≤ n) :
    ((ofText t).position m).offset ≤ ((ofText t).position n).offset := by
  have := utf8Size_take_mono t h
  simp only [position, byteOffset_eq]
  omega

/-- No two offsets have one position. -/
lemma position_inj {m n : Nat} (hm : m ≤ t.length) (hn : n ≤ t.length)
    (h : (ofText t).position m = (ofText t).position n) : m = n := by
  have hoffset := congrArg EditorPosition.offset h
  simp only [position, byteOffset_eq, Int.natCast_inj] at hoffset
  rcases Nat.lt_trichotomy m n with hlt | heq | hlt
  · have := utf8Size_take_lt hlt hn
    omega
  · exact heq
  · have := utf8Size_take_lt hlt hm
    omega

/-- The first offset is at the start of everything. -/
lemma position_zero : (ofText t).position 0 = ⟨0, 0, 0⟩ := by
  have hline : (ofText t).startsUpTo 0 = [⟨0, 0⟩] := by
    rw [startsUpTo, starts_ofText]
    have hclosed := (segments_spec t).2
    cases hsegments : segments t with
    | nil => exact absurd hsegments hclosed.ne_nil
    | cons s ss =>
        rw [hsegments] at hclosed
        cases ss with
        | nil => simp [startsFrom]
        | cons s' ss =>
            have hpos : 0 < s.text.length := by
              rcases hclosed.2.1 with hclose | hclose | ⟨hclose, -⟩ <;>
                simp [Segment.text, hclose]
            simp [startsFrom, hpos.ne']
  simp [position, byteOffset_eq, lineColumn, lineAt, hline, utf8Size]

end LineTable

end Galley
