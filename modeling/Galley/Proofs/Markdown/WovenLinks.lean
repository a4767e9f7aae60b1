import Galley.Proofs.Markdown.Woven
import Mathlib.Tactic

/-!
Link definitions whose lines have labels between them.

* `Interleaved`: the texts of lines with labels between them;
* `Alike`: two readings of the same text, up to a line;
* `definitionLabel_alike`, `skipGaps_alike`, `definitionEnd_alike`: they go on alike in front of
  that line; `skipGaps_interleaved`, `titleOutcome_interleaved`: behind it no title is read that is
  not read without the labels;
* `Defines.alike`: so a definition that ends in front of the line is found in both.
-/

namespace Galley.Markdown

/-! ### Texts of lines -/

/-- No line feed is in the text but at its end. -/
def Tidy (t : Text) : Prop := '\n' ∉ t.dropLast

lemma Tidy.tail {c : Char} {cs : Text} (h : Tidy (c :: cs)) : Tidy cs := by
  cases cs with
  | nil => simp [Tidy]
  | cons d ds =>
      rw [Tidy, List.dropLast_cons_cons, List.mem_cons, not_or] at h
      exact h.2

lemma Tidy.eq_nil {cs : Text} (h : Tidy ('\n' :: cs)) : cs = [] := by
  cases cs with
  | nil => rfl
  | cons d ds =>
      rw [Tidy, List.dropLast_cons_cons] at h
      exact absurd List.mem_cons_self h

/-- A destination leaves an end of the text. -/
lemma suffix_of_map {found : Option (Text × Text)} {f : Text → Text} {t u d rest : Text}
    (h : (found.map fun p => (f p.1, p.2)) = some (d, rest))
    (hfound : ∀ {d}, found = some (d, rest) → rest <:+ t) (ht : t <:+ u) : rest <:+ u := by
  obtain ⟨⟨d', rest'⟩, h', heq⟩ := Option.map_eq_some_iff.mp h
  obtain ⟨-, rfl⟩ := Prod.mk.inj heq
  exact (hfound h').trans ht

lemma angleDestination_suffix {t d rest : Text} (h : angleDestination? t = some (d, rest)) :
    rest <:+ t := by
  fun_induction angleDestination? t generalizing d with
  | case1 | case3 => simp at h
  | case2 c cs ih =>
      exact suffix_of_map (f := ('\\' :: c :: ·)) h ih
        ((List.suffix_cons _ _).trans (List.suffix_cons _ _))
  | case4 c cs =>
      obtain ⟨-, rfl⟩ := Prod.mk.inj (Option.some.inj h)
      exact List.suffix_cons _ _
  | case5 c cs _ _ _ ih => exact suffix_of_map (f := (c :: ·)) h ih (List.suffix_cons _ _)

lemma bareDestination_suffix {opened : Nat} {t d rest : Text}
    (h : bareDestination? opened t = some (d, rest)) : rest <:+ t := by
  fun_induction bareDestination? opened t generalizing d with
  | case2 | case4 | case7 | case8 => simp at h
  | case1 | case3 | case6 | case10 =>
      obtain ⟨-, rfl⟩ := Prod.mk.inj (Option.some.inj h)
      exact List.suffix_rfl
  | case5 opened c cs _ ih =>
      exact suffix_of_map (f := ('\\' :: c :: ·)) h ih
        ((List.suffix_cons _ _).trans (List.suffix_cons _ _))
  | case9 opened c cs _ _ _ _ ih => exact suffix_of_map (f := (c :: ·)) h ih (List.suffix_cons _ _)
  | case11 opened c cs _ _ _ _ _ ih =>
      exact suffix_of_map (f := (c :: ·)) h ih (List.suffix_cons _ _)
  | case12 opened c cs _ _ _ _ ih => exact suffix_of_map (f := (c :: ·)) h ih (List.suffix_cons _ _)

lemma linkDestination_suffix {t d rest : Text} (h : linkDestination? t = some (d, rest)) :
    rest <:+ t := by
  unfold linkDestination? at h
  split at h
  · exact (angleDestination_suffix h).trans (List.suffix_cons _ _)
  · split at h
    · simp at h
    · exact bareDestination_suffix h

/-! ### The lines behind a definition -/

/-- The texts `ts'` are texts from the start of `ts` on, with labels between them. -/
inductive Interleaved : List Text → List Text → Prop where
  | nil (ts : List Text) : Interleaved ts []
  | keep (t : Text) {ts ts' : List Text} (h : Interleaved ts ts') : Interleaved (t :: ts) (t :: ts')
  | label {id t : Text} {ts ts' : List Text} (hid : ∀ c ∈ id, c.isAlphanum = true ∨ c = '-')
      (h : Interleaved (t :: ts) ts') : Interleaved (t :: ts) ((labelLine id ++ ['\n']) :: ts')

lemma Interleaved.append {ts ts' : List Text} (h : Interleaved ts ts') (ps : List Text) :
    Interleaved (ps ++ ts) (ps ++ ts') := by
  induction ps with
  | nil => exact h
  | cons p ps ih => exact .keep p ih

/-! ### Readings -/

/-- The characters that are left to read. -/
def Reading.size (r : Reading) : Nat := r.rest.length + r.pending.flatten.length

/-- The texts of lines are tidy, also what is left of one. -/
def Reading.Tidy (r : Reading) : Prop := Markdown.Tidy r.rest ∧ ∀ t ∈ r.pending, Markdown.Tidy t

lemma Reading.Tidy.take {rest : Text} {pending : List Text} {line : Nat}
    (h : Reading.Tidy ⟨'\n' :: rest, pending, line⟩) :
    (Reading.take ⟨rest, pending, line⟩).Tidy := by
  obtain ⟨hrest, hpending⟩ := h
  obtain rfl := hrest.eq_nil
  cases pending with
  | nil => exact ⟨hrest.tail, hpending⟩
  | cons t ts =>
      exact ⟨hpending t List.mem_cons_self, fun u hu => hpending u (List.mem_cons_of_mem t hu)⟩

@[simp] lemma Reading.size_cons (c : Char) (rest : Text) (pending : List Text) (line : Nat) :
    Reading.size ⟨c :: rest, pending, line⟩ = Reading.size ⟨rest, pending, line⟩ + 1 := by
  simp only [Reading.size, List.length_cons]
  omega

@[simp] lemma Reading.size_take (r : Reading) : r.take.size = r.size := by
  obtain ⟨rest, pending, line⟩ := r
  cases pending with
  | nil => rfl
  | cons t ts =>
      simp only [Reading.take, Reading.size, List.length_append, List.flatten_cons]
      omega

/-- Two readings of the same text. What they may still take is the same up to the line `past` of the
first one, and comes with labels between from there on. Their lines differ by a constant. -/
structure Alike (a b past : Nat) (r r' : Reading) : Prop where
  rest : r'.rest = r.rest
  line : r.line + a = r'.line + b
  pending : ∃ ps ts ts', r.pending = ps ++ ts ∧ r'.pending = ps ++ ts' ∧ Interleaved ts ts' ∧
    (ts = [] ∨ past ≤ r.line + ps.length)

section Alike

variable {a b past : Nat} {rest : Text} {pending pending' : List Text} {line line' : Nat}

lemma Alike.read {r r' : Reading} (h : Alike a b past r r') (rest' : Text) :
    Alike a b past { r with rest := rest' } { r' with rest := rest' } :=
  ⟨rfl, h.line, h.pending⟩

/-- Where the first reading does not take the line `past`, both take the same one. -/
lemma Alike.take (h : Alike a b past ⟨rest, pending, line⟩ ⟨rest, pending', line'⟩)
    (hpast : (Reading.take ⟨rest, pending, line⟩).line ≤ past) :
    Alike a b past (Reading.take ⟨rest, pending, line⟩) (Reading.take ⟨rest, pending', line'⟩) := by
  obtain ⟨ps, ts, ts', hpending, hpending', hwoven, hlong⟩ := h.pending
  have hline := h.line
  dsimp only at hpending hpending' hlong hline
  subst hpending hpending'
  cases ps with
  | cons p ps =>
      refine ⟨rfl, ?_, ps, ts, ts', rfl, rfl, hwoven, ?_⟩
      · simp only [List.cons_append, Reading.take]
        omega
      · refine hlong.imp_right fun hle => ?_
        simp only [List.cons_append, Reading.take, List.length_cons] at hle ⊢
        omega
  | nil =>
      cases ts with
      | nil =>
          cases hwoven
          exact h
      | cons t ts =>
          simp only [List.nil_append, Reading.take] at hpast
          simp at hlong
          omega

end Alike

/-- The property is kept while a reading goes on. -/
structure Reading.Kept (P : Reading → Prop) : Prop where
  read : ∀ {c : Char} {rest : Text} {pending : List Text} {line : Nat},
    P ⟨c :: rest, pending, line⟩ → P ⟨rest, pending, line⟩
  take : ∀ {rest : Text} {pending : List Text} {line : Nat},
    P ⟨'\n' :: rest, pending, line⟩ → P (Reading.take ⟨rest, pending, line⟩)

lemma definitionLabel_keeps {P : Reading → Prop} (hP : Reading.Kept P) {fuel : Nat}
    {r r₁ : Reading} {t : Text} (hread : definitionLabel? fuel r = some (t, r₁)) (h : P r) :
    P r₁ := by
  induction fuel generalizing r t with
  | zero => simp [definitionLabel?] at hread
  | succ fuel ih =>
      have hnext : ∀ {q : Reading} (f : Text → Text), P q →
          (definitionLabel? fuel q).map (fun p => (f p.1, p.2)) = some (t, r₁) → P r₁ := by
        intro q f hq hmap
        obtain ⟨⟨t', q₁⟩, hp, heq⟩ := Option.map_eq_some_iff.mp hmap
        obtain ⟨-, rfl⟩ := Prod.mk.inj heq
        exact ih hp hq
      obtain ⟨rest, pending, line⟩ := r
      rw [definitionLabel?] at hread
      simp only at hread
      split at hread
      · simp at hread
      · simp at hread
      · obtain ⟨-, rfl⟩ := Prod.mk.inj (Option.some.inj hread)
        exact hP.read h
      · exact hnext ('\n' :: ·) (hP.take h) hread
      · exact hnext ('\\' :: '\n' :: ·) (hP.take (hP.read h)) hread
      · rename_i c rest _
        exact hnext ('\\' :: c :: ·) (hP.read (hP.read h)) hread
      · rename_i c rest _ _ _ _ _
        exact hnext (c :: ·) (hP.read h) hread

lemma skipGaps_keeps {P : Reading → Prop} (hP : Reading.Kept P) {fuel : Nat} {moved : Bool}
    {r : Reading} (h : P r) : P (skipGaps fuel moved r).2 := by
  induction fuel generalizing moved r with
  | zero => exact h
  | succ fuel ih =>
      obtain ⟨rest, pending, line⟩ := r
      rw [skipGaps]
      simp only
      split
      · exact ih (hP.take h)
      · split_ifs
        · exact ih (hP.read h)
        · exact h
      · exact h

lemma Reading.tidy_kept : Reading.Kept Reading.Tidy where
  read h := ⟨h.1.tail, h.2⟩
  take := Reading.Tidy.take

lemma Reading.size_kept (n : Nat) : Reading.Kept fun r => r.size < n where
  read h := by
    rw [Reading.size_cons] at h
    omega
  take h := by
    rw [Reading.size_cons] at h
    rw [Reading.size_take]
    omega

/-! ### Titles -/

/-- What becomes of a definition by the title behind it: there is none, or it makes the definition
void, or the definition ends behind it. -/
inductive TitleOutcome where
  | none
  | refused
  | ends (line : Nat)

/-- The title that is read after the gap behind a destination. -/
def titleOutcome (moved : Bool) (gap : Reading) : TitleOutcome :=
  match linkTitle gap.rest with
  | (some _, .closed isEmpty rest) =>
      if moved then
        if atLineEnd { gap with rest } then .ends gap.line else if isEmpty then .refused else .none
      else .none
  | (some mark, .unclosed) =>
      match continueTitle mark (gap.rest.length ≤ 1) gap.line gap.pending with
      | (.closed isEmpty rest, pending, line) =>
          if (moved || gap.line < line) && atLineEnd ⟨rest, pending, line⟩ then .ends line
          else if isEmpty then .refused
          else .none
      | _ => .none
  | _ => .none

lemma definitionEnd_eq (fuel : Nat) (target : Reading) : definitionEnd? fuel target =
    match titleOutcome (skipGaps fuel false target).1 (skipGaps fuel false target).2 with
    | .none => if atLineEnd target then some target.line else none
    | .refused => none
    | .ends line => some line := by
  rw [definitionEnd?, titleOutcome]
  generalize skipGaps fuel false target = found
  obtain ⟨moved, gap⟩ := found
  dsimp only
  rcases linkTitle gap.rest with ⟨_ | mark, _ | ⟨isEmpty, rest⟩ | _⟩
  case some.closed =>
    dsimp only
    split_ifs <;> rfl
  case some.unclosed =>
    dsimp only
    rcases continueTitle mark (gap.rest.length ≤ 1) gap.line gap.pending with
      ⟨_ | ⟨isEmpty, rest⟩ | _, pending, line⟩
    case closed =>
      dsimp only
      split_ifs <;> rfl
    all_goals rfl
  all_goals rfl

/-- The second title is the first one; it is empty only if the first one is. -/
inductive SameTitle : TitleResult → TitleResult → Prop where
  | absent : SameTitle .absent .absent
  | unclosed : SameTitle .unclosed .unclosed
  | closed {isEmpty isEmpty' : Bool} (h : isEmpty' = true → isEmpty = true) (rest : Text) :
      SameTitle (.closed isEmpty rest) (.closed isEmpty' rest)

lemma SameTitle.refl (r : TitleResult) : SameTitle r r := by
  cases r with
  | absent => exact .absent
  | unclosed => exact .unclosed
  | closed isEmpty rest => exact .closed id rest

lemma titleBody_same (mark : Char) {isEmpty isEmpty' : Bool} (h : isEmpty' = true → isEmpty = true)
    (t : Text) : SameTitle (titleBody mark isEmpty t) (titleBody mark isEmpty' t) := by
  fun_cases titleBody mark isEmpty t with
  | case1 => exact .unclosed
  | case2 c cs =>
      rw [titleBody]
      exact .refl _
  | case3 c cs hescape hclose =>
      rw [titleBody, if_pos hclose]
      · exact .closed h cs
      · exact hescape
  | case4 c cs hescape hclose habsent =>
      rw [titleBody, if_neg hclose, if_pos habsent]
      · exact .absent
      · exact hescape
  | case5 c cs hescape hclose habsent =>
      rw [titleBody, if_neg hclose, if_neg habsent]
      · exact .refl _
      · exact hescape

/-- The marks that may close titles. -/
def IsTitleMark (mark : Char) : Prop := mark = '"' ∨ mark = '\'' ∨ mark = ')'

lemma linkTitle_mark {t : Text} {mark : Char} {result : TitleResult}
    (h : linkTitle t = (some mark, result)) : IsTitleMark mark := by
  cases t with
  | nil => simp [linkTitle] at h
  | cons c cs =>
      rw [linkTitle, titleMark?] at h
      split_ifs at h with hquote hopen
      · obtain rfl := Option.some.inj (Prod.mk.inj h).1
        simp only [Bool.or_eq_true, beq_iff_eq] at hquote
        exact hquote.imp_right Or.inl
      · exact Or.inr (Or.inr (Option.some.inj (Prod.mk.inj h).1).symm)
      · simp at h

lemma titleBody_unclosed {mark : Char} {isEmpty : Bool} {t : Text} (hmark : mark ∉ t)
    (hescape : '\\' ∉ t) (hopen : mark ≠ ')') : titleBody mark isEmpty t = .unclosed := by
  fun_induction titleBody mark isEmpty t with
  | case1 => rfl
  | case2 => simp at hescape
  | case3 => simp_all
  | case4 => simp_all
  | case5 isEmpty c cs _ _ _ ih => exact ih (by simp_all) (by simp_all)

/-- In the line of a label a title is not closed, or other text follows it. -/
lemma titleBody_label {mark : Char} (hmark : IsTitleMark mark) (isEmpty : Bool) {id : Text}
    (hid : ∀ c ∈ id, c.isAlphanum = true ∨ c = '-') :
    titleBody mark isEmpty (labelLine id ++ ['\n']) = .absent ∨
      titleBody mark isEmpty (labelLine id ++ ['\n']) = .unclosed ∨
      ∃ rest, titleBody mark isEmpty (labelLine id ++ ['\n']) = .closed false rest ∧
        ∀ pending line, atLineEnd ⟨rest, pending, line⟩ = false := by
  rcases hmark with rfl | rfl | rfl
  · refine Or.inr (Or.inr ⟨id ++ "\") -->\n".toList, ?_, fun pending line => ?_⟩)
    · unfold labelLine
      simp [titleBody]
    · cases id with
      | nil => rfl
      | cons c cs =>
          have hc := hid c List.mem_cons_self
          have hblank : isBlank c = false := by
            simp only [isBlank, Bool.or_eq_false_iff, beq_eq_false_iff_ne]
            constructor <;> rintro rfl <;> simp at hc
          have hfeed : c ≠ '\n' := by
            rintro rfl
            simp at hc
          rw [atLineEnd, List.cons_append, List.dropWhile_cons_of_neg (by simp [hblank])]
          simpa using hfeed
  · refine Or.inr (Or.inl (titleBody_unclosed ?_ ?_ (by decide)))
    · rw [List.mem_append, not_or]
      exact ⟨notMem_labelLine hid (by decide) (by decide), by decide⟩
    · rw [List.mem_append, not_or]
      exact ⟨notMem_labelLine hid (by decide) (by decide), by decide⟩
  · left
    unfold labelLine
    simp [titleBody]

lemma lt_continueTitle {mark : Char} {isEmpty isEmpty' : Bool} {line line' : Nat}
    {pending pending' : List Text} {rest : Text}
    (h : continueTitle mark isEmpty line pending = (.closed isEmpty' rest, pending', line')) :
    line < line' := by
  cases pending with
  | nil => simp [continueTitle] at h
  | cons t ts =>
      have hle := le_continueTitle mark (isEmpty && t.isEmpty) (line + 1) ts
      rw [continueTitle] at h
      split at h
      · rw [h] at hle
        exact hle
      · exact (Prod.mk.inj (Prod.mk.inj h).2).2 ▸ Nat.lt_succ_self line

lemma le_titleOutcome {moved : Bool} {gap : Reading} {n : Nat}
    (h : titleOutcome moved gap = .ends n) : gap.line ≤ n := by
  rw [titleOutcome] at h
  generalize linkTitle gap.rest = title at h
  obtain ⟨_ | mark, _ | ⟨isEmpty, rest⟩ | _⟩ := title
  case some.closed =>
    dsimp only at h
    split_ifs at h
    exact (TitleOutcome.ends.inj h).le
  case some.unclosed =>
    have hline := le_continueTitle mark (gap.rest.length ≤ 1) gap.line gap.pending
    dsimp only at h
    generalize continueTitle mark (gap.rest.length ≤ 1) gap.line gap.pending = found at h hline
    obtain ⟨_ | ⟨isEmpty, rest⟩ | _, pending, line⟩ := found
    case closed =>
      dsimp only at h hline
      split_ifs at h
      exact TitleOutcome.ends.inj h ▸ hline
    all_goals simp at h
  all_goals simp at h

/-- With labels between the lines, a title is closed where it is closed without them, or in a label,
in front of other text. -/
lemma continueTitle_interleaved (line line' : Nat) {mark : Char} (hmark : IsTitleMark mark)
    {isEmpty isEmpty' i' : Bool} (hempty : isEmpty' = true → isEmpty = true) {ts ts' : List Text}
    (h : Interleaved ts ts') {rest : Text}
    (hclosed : (continueTitle mark isEmpty' line' ts').1 = .closed i' rest) :
    (i' = false ∧ ∀ pending n, atLineEnd ⟨rest, pending, n⟩ = false) ∨
      ∃ i, (continueTitle mark isEmpty line ts).1 = .closed i rest ∧ (i' = true → i = true) := by
  induction h generalizing isEmpty isEmpty' line line' with
  | nil ts => simp [continueTitle] at hclosed
  | @keep t ts ts' h ih =>
      rw [continueTitle] at hclosed ⊢
      have hsame := titleBody_same mark hempty t
      generalize titleBody mark isEmpty t = x at hsame ⊢
      generalize titleBody mark isEmpty' t = x' at hsame hclosed
      cases hsame with
      | absent => simp at hclosed
      | unclosed =>
          refine ih _ _ (fun hand => ?_) hclosed
          rw [Bool.and_eq_true] at hand ⊢
          exact ⟨hempty hand.1, hand.2⟩
      | closed hi rest' =>
          obtain ⟨rfl, rfl⟩ := TitleResult.closed.inj hclosed
          exact Or.inr ⟨_, rfl, hi⟩
  | @label id t ts ts' hid h ih =>
      rw [continueTitle] at hclosed
      rcases titleBody_label hmark isEmpty' hid with hbody | hbody | ⟨rest', hbody, hend⟩
      · rw [hbody] at hclosed
        simp at hclosed
      · rw [hbody] at hclosed
        refine ih _ _ (fun hand => ?_) hclosed
        simp at hand
      · rw [hbody] at hclosed
        obtain ⟨rfl, rfl⟩ := TitleResult.closed.inj hclosed
        exact Or.inl ⟨rfl, hend⟩

/-- A title that is closed in front of all labels is closed there among them. -/
lemma continueTitle_before {mark : Char} {isEmpty i : Bool} {line past n : Nat} (line' : Nat)
    {ps ts ts' pending : List Text} {rest : Text} (hwoven : Interleaved ts ts')
    (hlong : ts = [] ∨ past ≤ line + ps.length) (hn : n ≤ past)
    (h : continueTitle mark isEmpty line (ps ++ ts) = (.closed i rest, pending, n)) :
    ∃ pending' n', continueTitle mark isEmpty line' (ps ++ ts') = (.closed i rest, pending', n') ∧
      n + line' = n' + line := by
  induction ps generalizing isEmpty line line' with
  | nil =>
      exfalso
      have hlt := lt_continueTitle h
      rcases hlong with rfl | hlong
      · simp [continueTitle] at h
      · simp at hlong
        omega
  | cons p ps ih =>
      rw [List.cons_append, continueTitle] at h ⊢
      generalize titleBody mark isEmpty p = x at h ⊢
      cases x with
      | absent => simp at h
      | unclosed =>
          obtain ⟨pending', n', h', hline⟩ := ih (line' + 1) (hlong.imp_right fun hle => by
            rw [List.length_cons] at hle
            omega) h
          exact ⟨pending', n', h', by omega⟩
      | closed e r =>
          simp only [Prod.mk.injEq] at h ⊢
          obtain ⟨hx, rfl, rfl⟩ := h
          exact ⟨_, _, ⟨hx, rfl, rfl⟩, by omega⟩

/-- Where no title is read, none is read with labels between the lines. -/
lemma titleOutcome_interleaved {moved : Bool} {gap gap' : Reading} (hrest : gap'.rest = gap.rest)
    (hpending : Interleaved gap.pending gap'.pending) (h : titleOutcome moved gap = .none) :
    titleOutcome moved gap' = .none := by
  rw [titleOutcome] at h ⊢
  rw [hrest]
  rcases htitle : linkTitle gap.rest with ⟨_ | mark, _ | ⟨isEmpty, rest⟩ | _⟩
  case some.closed =>
    rw [htitle] at h
    dsimp only at h ⊢
    cases moved with
    | false => rfl
    | true =>
        have hend' : atLineEnd ⟨rest, gap'.pending, gap'.line⟩ =
            atLineEnd ⟨rest, gap.pending, gap.line⟩ := rfl
        rw [hend']
        split_ifs at h ⊢ <;> rfl
  case some.unclosed =>
    rw [htitle] at h
    have hclose : ∀ i' rest, (continueTitle mark (gap.rest.length ≤ 1) gap'.line gap'.pending).1 =
        .closed i' rest → _ := fun _ _ =>
      continueTitle_interleaved gap.line gap'.line (linkTitle_mark htitle) id hpending
    dsimp only at h ⊢
    generalize hfound' : continueTitle mark (gap.rest.length ≤ 1) gap'.line gap'.pending = found'
      at hclose
    obtain ⟨x', pending', n'⟩ := found'
    cases x' with
    | absent => rfl
    | unclosed => rfl
    | closed i' rest =>
        dsimp only
        rcases hclose i' rest rfl with ⟨rfl, hend⟩ | ⟨i, hi, hii⟩
        · rw [hend, Bool.and_false]
          rfl
        · generalize hfound : continueTitle mark (gap.rest.length ≤ 1) gap.line gap.pending = found
            at hi h
          obtain ⟨x, pending, n⟩ := found
          obtain rfl : x = .closed i rest := hi
          have hlt := lt_continueTitle hfound
          dsimp only at h
          split_ifs at h with hend hempty
          have hend' : atLineEnd ⟨rest, pending', n'⟩ = false := by
            simpa [hlt, atLineEnd] using hend
          rw [hend', Bool.and_false, if_neg Bool.false_ne_true,
            if_neg (fun hi' => hempty (hii hi'))]
  all_goals rfl

lemma linkTitle_label (id rest : Text) : linkTitle (labelLine id ++ rest) = (none, .absent) := by
  obtain ⟨body, hbody⟩ := labelLine_cons id
  rw [hbody]
  rfl

lemma skipGaps_label (fuel : Nat) (moved : Bool) (id rest : Text) (pending : List Text)
    (line : Nat) : skipGaps fuel moved ⟨labelLine id ++ rest, pending, line⟩ =
      (moved, ⟨labelLine id ++ rest, pending, line⟩) := by
  obtain ⟨body, hbody⟩ := labelLine_cons id
  rw [hbody]
  cases fuel <;> rfl

/-- A gap is the same with labels between the lines, or a label or nothing is behind it. -/
lemma skipGaps_interleaved {fuel fuel' : Nat} (moved : Bool) {r r' : Reading} (htidy : r.Tidy)
    (hsize : r.size < fuel) (hsize' : r'.size < fuel') (hrest : r'.rest = r.rest)
    (hpending : Interleaved r.pending r'.pending) :
    ((skipGaps fuel' moved r').1 = (skipGaps fuel moved r).1 ∧
      (skipGaps fuel' moved r').2.rest = (skipGaps fuel moved r).2.rest ∧
      Interleaved (skipGaps fuel moved r).2.pending (skipGaps fuel' moved r').2.pending) ∨
    linkTitle (skipGaps fuel' moved r').2.rest = (none, .absent) := by
  induction fuel generalizing fuel' moved r r' with
  | zero => omega
  | succ fuel ih =>
      obtain ⟨fuel', rfl⟩ := Nat.exists_eq_succ_of_ne_zero (Nat.ne_zero_of_lt hsize')
      obtain ⟨rest, pending, line⟩ := r
      obtain ⟨rest', pending', line'⟩ := r'
      obtain rfl : rest' = rest := hrest
      rw [skipGaps, skipGaps]
      simp only
      split
      · obtain rfl := htidy.1.eq_nil
        have htaken := htidy.take
        rw [Reading.size_cons] at hsize hsize'
        rcases hpending with _ | ⟨t, h⟩ | ⟨hid, h⟩
        · right
          cases fuel' <;> rfl
        · exact ih true htaken (by rw [Reading.size_take]; omega) (by rw [Reading.size_take]; omega)
            rfl h
        · right
          simp only [Reading.take, List.nil_append, skipGaps_label]
          exact linkTitle_label _ _
      · rename_i c rest _
        rw [Reading.size_cons] at hsize hsize'
        split_ifs
        · exact ih true ⟨htidy.1.tail, htidy.2⟩ (by omega) (by omega) rfl hpending
        · exact Or.inl ⟨rfl, rfl, hpending⟩
      · exact Or.inl ⟨rfl, rfl, hpending⟩

section Alike

variable {a b past : Nat}

lemma Alike.interleaved {r r' : Reading} (h : Alike a b past r r') :
    Interleaved r.pending r'.pending := by
  obtain ⟨ps, ts, ts', hpending, hpending', hwoven, -⟩ := h.pending
  rw [hpending, hpending']
  exact hwoven.append ps

/-- In front of a line, gaps are the same. -/
lemma skipGaps_alike {fuel fuel' : Nat} (moved : Bool) {r r' : Reading} (h : Alike a b past r r')
    (hsize : r.size < fuel) (hsize' : r'.size < fuel')
    (hpast : (skipGaps fuel moved r).2.line ≤ past) :
    (skipGaps fuel' moved r').1 = (skipGaps fuel moved r).1 ∧
      Alike a b past (skipGaps fuel moved r).2 (skipGaps fuel' moved r').2 := by
  induction fuel generalizing fuel' moved r r' with
  | zero => omega
  | succ fuel ih =>
      obtain ⟨fuel', rfl⟩ := Nat.exists_eq_succ_of_ne_zero (Nat.ne_zero_of_lt hsize')
      obtain ⟨rest, pending, line⟩ := r
      obtain ⟨rest', pending', line'⟩ := r'
      obtain rfl : rest' = rest := h.rest
      rw [skipGaps] at hpast ⊢
      rw [skipGaps]
      simp only at hpast ⊢
      split at hpast
      · rw [Reading.size_cons] at hsize hsize'
        have htake := (h.read _).take ((le_skipGaps _ _ _).trans hpast)
        exact ih true htake (by rw [Reading.size_take]; omega) (by rw [Reading.size_take]; omega)
          hpast
      · rename_i c rest _
        rw [Reading.size_cons] at hsize hsize'
        split_ifs at hpast ⊢
        · exact ih true (h.read _) (by omega) (by omega) hpast
        · exact ⟨rfl, h⟩
      · exact ⟨rfl, h⟩

/-- A title that ends a definition in front of the labels ends it there among them. -/
lemma titleOutcome_alike {moved : Bool} {gap gap' : Reading} {n : Nat}
    (h : Alike a b past gap gap') (hn : n ≤ past) (hends : titleOutcome moved gap = .ends n) :
    ∃ n', titleOutcome moved gap' = .ends n' ∧ n + a = n' + b := by
  obtain ⟨ps, ts, ts', hpending, hpending', hwoven, hlong⟩ := h.pending
  have hline := h.line
  rw [titleOutcome] at hends ⊢
  rw [h.rest]
  rcases htitle : linkTitle gap.rest with ⟨_ | mark, _ | ⟨isEmpty, rest⟩ | _⟩
  case some.closed =>
    rw [htitle] at hends
    dsimp only at hends ⊢
    have hend' : atLineEnd ⟨rest, gap'.pending, gap'.line⟩ =
        atLineEnd ⟨rest, gap.pending, gap.line⟩ := rfl
    rw [hend']
    split_ifs at hends ⊢
    obtain rfl := TitleOutcome.ends.inj hends
    exact ⟨_, rfl, hline⟩
  case some.unclosed =>
    rw [htitle] at hends
    dsimp only at hends ⊢
    generalize hfound : continueTitle mark (gap.rest.length ≤ 1) gap.line gap.pending = found
      at hends
    obtain ⟨_ | ⟨isEmpty, rest⟩ | _, pending, line⟩ := found
    case closed =>
      dsimp only at hends
      split_ifs at hends with hend
      obtain rfl := TitleOutcome.ends.inj hends
      rw [hpending] at hfound
      obtain ⟨pending₁, n', hfound', hshift⟩ :=
        continueTitle_before gap'.line hwoven hlong hn hfound
      have hmoves : decide (gap'.line < n') = decide (gap.line < line) :=
        decide_eq_decide.mpr (by omega)
      rw [hpending', hfound']
      dsimp only
      rw [hmoves, show atLineEnd ⟨rest, pending₁, n'⟩ = atLineEnd ⟨rest, pending, line⟩ from rfl,
        if_pos hend]
      exact ⟨n', rfl, by omega⟩
    all_goals simp at hends
  all_goals simp [htitle] at hends

/-- A definition that ends in front of the labels ends there among them. -/
lemma definitionEnd_alike {fuel fuel' n : Nat} {r r' : Reading} (h : Alike a b n r r')
    (htidy : r.Tidy) (hsize : r.size < fuel) (hsize' : r'.size < fuel')
    (hend : definitionEnd? fuel r = some n) :
    ∃ n', definitionEnd? fuel' r' = some n' ∧ n + a = n' + b := by
  have hline := h.line
  rw [definitionEnd_eq] at hend ⊢
  generalize houtcome : titleOutcome (skipGaps fuel false r).1 (skipGaps fuel false r).2 = outcome
    at hend
  cases outcome with
  | refused => simp at hend
  | none =>
      have houtcome' : titleOutcome (skipGaps fuel' false r').1 (skipGaps fuel' false r').2 =
          .none := by
        rcases skipGaps_interleaved false htidy hsize hsize' h.rest h.interleaved with
          ⟨hmoved, hrest, hpending⟩ | habsent
        · rw [hmoved]
          exact titleOutcome_interleaved hrest hpending houtcome
        · rw [titleOutcome, habsent]
      have hplain : atLineEnd r' = atLineEnd r := by
        rw [atLineEnd, atLineEnd, h.rest]
      rw [houtcome']
      dsimp only at hend ⊢
      rw [hplain]
      split_ifs at hend ⊢
      obtain rfl := Option.some.inj hend
      exact ⟨_, rfl, hline⟩
  | ends line =>
      obtain rfl := Option.some.inj hend
      have hgap : (skipGaps fuel false r).2.line ≤ line := le_titleOutcome houtcome
      obtain ⟨hmoved, halike⟩ := skipGaps_alike false h hsize hsize' hgap
      obtain ⟨n', hends, hshift⟩ := titleOutcome_alike halike le_rfl houtcome
      rw [hmoved, hends]
      exact ⟨n', rfl, hshift⟩

end Alike

section Alike

variable {a b past : Nat} {rest : Text} {pending pending' : List Text} {line line' : Nat}

/-- In front of the line labels of definitions are read alike. -/
lemma definitionLabel_alike {fuel fuel' : Nat} {r r' r₁ : Reading} {t : Text}
    (h : Alike a b past r r') (hfuel : r'.size < fuel')
    (hread : definitionLabel? fuel r = some (t, r₁)) (hpast : r₁.line ≤ past) :
    ∃ r₁', definitionLabel? fuel' r' = some (t, r₁') ∧ Alike a b past r₁ r₁' := by
  induction fuel generalizing fuel' r r' t with
  | zero => simp [definitionLabel?] at hread
  | succ fuel ih =>
      obtain ⟨fuel', rfl⟩ := Nat.exists_eq_succ_of_ne_zero (Nat.ne_zero_of_lt hfuel)
      have hnext : ∀ {q q' : Reading} (f : Text → Text), Alike a b past q q' → q'.size < fuel' →
          (definitionLabel? fuel q).map (fun p => (f p.1, p.2)) = some (t, r₁) →
          ∃ r₁', (definitionLabel? fuel' q').map (fun p => (f p.1, p.2)) = some (t, r₁') ∧
            Alike a b past r₁ r₁' := by
        intro q q' f hq hsize hmap
        obtain ⟨⟨t', q₁⟩, hp, heq⟩ := Option.map_eq_some_iff.mp hmap
        obtain ⟨rfl, rfl⟩ := Prod.mk.inj heq
        obtain ⟨r₁', hr₁', halike⟩ := ih hq hsize hp
        exact ⟨r₁', by rw [hr₁', Option.map_some], halike⟩
      have htake : ∀ {rest : Text} {pending pending' : List Text} {line line' : Nat}
          (f : Text → Text),
          Alike a b past ⟨rest, pending, line⟩ ⟨rest, pending', line'⟩ →
          Reading.size ⟨rest, pending', line'⟩ < fuel' →
          (definitionLabel? fuel (Reading.take ⟨rest, pending, line⟩)).map
            (fun p => (f p.1, p.2)) = some (t, r₁) →
          ∃ r₁', (definitionLabel? fuel' (Reading.take ⟨rest, pending', line'⟩)).map
            (fun p => (f p.1, p.2)) = some (t, r₁') ∧ Alike a b past r₁ r₁' := by
        intro rest pending pending' line line' f hq hsize hmap
        refine hnext f (hq.take ?_) (by rwa [Reading.size_take]) hmap
        obtain ⟨⟨t', q₁⟩, hp, heq⟩ := Option.map_eq_some_iff.mp hmap
        obtain ⟨-, rfl⟩ := Prod.mk.inj heq
        exact (le_definitionLabel hp).trans hpast
      obtain ⟨rest, pending, line⟩ := r
      obtain ⟨rest', pending', line'⟩ := r'
      obtain rfl : rest' = rest := h.rest
      rw [definitionLabel?] at hread ⊢
      simp only at hread ⊢
      split at hread
      · simp at hread
      · simp at hread
      · obtain ⟨rfl, rfl⟩ := Prod.mk.inj (Option.some.inj hread)
        exact ⟨_, rfl, h.read _⟩
      · exact htake ('\n' :: ·) (h.read _) (by simp at hfuel ⊢; omega) hread
      · exact htake ('\\' :: '\n' :: ·) (h.read _) (by simp at hfuel ⊢; omega) hread
      · rename_i c rest _
        exact hnext ('\\' :: c :: ·) (h.read _) (by simp at hfuel ⊢; omega) hread
      · rename_i c rest _ _ _ _ _
        exact hnext (c :: ·) (h.read _) (by simp at hfuel ⊢; omega) hread

end Alike

/-! ### Definitions -/

/-- A definition with a key whose label goes on with a reading ends in front of a line. -/
inductive Defines (fuel : Nat) (r : Reading) : Text → Nat → Prop where
  | intro {label behind destination rest : Text} {r₁ gap : Reading} {past : Nat}
      (hlabel : definitionLabel? fuel r = some (label, r₁)) (hcolon : r₁.rest = ':' :: behind)
      (hgap : (skipGaps fuel false { r₁ with rest := behind }).2 = gap)
      (hdestination : linkDestination? gap.rest = some (destination, rest))
      (hsafe : isSafeDestination destination = true)
      (hend : definitionEnd? fuel { gap with rest } = some past)
      (hkey : (labelKey label).isEmpty = false) : Defines fuel r (labelKey label) past

lemma Reading.Kept.suffix {P : Reading → Prop} (hP : Reading.Kept P) {rest rest' : Text}
    {pending : List Text} {line : Nat} (h : P ⟨rest, pending, line⟩) (hrest : rest' <:+ rest) :
    P ⟨rest', pending, line⟩ := by
  obtain ⟨front, rfl⟩ := hrest
  induction front with
  | nil => exact h
  | cons c front ih => exact ih (hP.read h)

/-- What holds of a reading holds behind the label of a definition, and behind its destination. -/
lemma definition_keeps {P : Reading → Prop} (hP : Reading.Kept P) {fuel : Nat} {r r₁ : Reading}
    {label behind destination rest : Text} (h : P r)
    (hlabel : definitionLabel? fuel r = some (label, r₁)) (hcolon : r₁.rest = ':' :: behind)
    (hdestination : linkDestination? (skipGaps fuel false { r₁ with rest := behind }).2.rest =
      some (destination, rest)) :
    P { r₁ with rest := behind } ∧
      P { (skipGaps fuel false { r₁ with rest := behind }).2 with rest } := by
  have hbehind : P { r₁ with rest := behind } := by
    refine hP.suffix (definitionLabel_keeps hP hlabel h) ?_
    rw [hcolon]
    exact List.suffix_cons _ _
  exact ⟨hbehind, hP.suffix (skipGaps_keeps hP hbehind) (linkDestination_suffix hdestination)⟩

/-- A definition that ends in front of the labels is one among them, and ends there. -/
lemma Defines.alike {a b fuel fuel' past : Nat} {r r' : Reading} {key : Text}
    (h : Alike a b past r r') (htidy : r.Tidy) (hsize : r.size < fuel) (hsize' : r'.size < fuel')
    (hdefines : Defines fuel r key past) :
    ∃ past', Defines fuel' r' key past' ∧ past + a = past' + b := by
  obtain ⟨hlabel, hcolon, rfl, hdestination, hsafe, hend, hkey⟩ := hdefines
  rename_i label behind destination rest r₁
  have hgap := le_definitionEnd hend
  have hline := le_skipGaps fuel false { r₁ with rest := behind }
  obtain ⟨r₁', hlabel', hlike⟩ := definitionLabel_alike h hsize' hlabel (hline.trans hgap)
  have hcolon' : r₁'.rest = ':' :: behind := by rw [hlike.rest, hcolon]
  obtain ⟨hsize₁, hsize₂⟩ := definition_keeps (Reading.size_kept fuel) hsize hlabel hcolon
    hdestination
  obtain ⟨-, htidy₂⟩ := definition_keeps Reading.tidy_kept htidy hlabel hcolon hdestination
  have hsize₁' : Reading.size { r₁' with rest := behind } < fuel' := by
    refine (Reading.size_kept fuel').suffix
      (definitionLabel_keeps (Reading.size_kept fuel') hlabel' hsize') ?_
    rw [hcolon']
    exact List.suffix_cons _ _
  obtain ⟨-, hlike'⟩ := skipGaps_alike false (hlike.read behind) hsize₁ hsize₁' hgap
  have hdestination' : linkDestination? (skipGaps fuel' false { r₁' with rest := behind }).2.rest =
      some (destination, rest) := by rw [hlike'.rest, hdestination]
  obtain ⟨-, hsize₂'⟩ := definition_keeps (Reading.size_kept fuel') hsize' hlabel' hcolon'
    hdestination'
  obtain ⟨past', hend', hshift⟩ := definitionEnd_alike (hlike'.read rest) htidy₂ hsize₂
    hsize₂' hend
  exact ⟨past', .intro hlabel' hcolon' rfl hdestination' hsafe hend' hkey, hshift⟩

end Galley.Markdown
