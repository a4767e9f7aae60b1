import Galley.Proofs.Directives
import Mathlib.Tactic

/-!
The arguments of a directive can be read back.

* `escapeChar_spec`: a character in a string literal stands for itself, or a backslash announces it;
* `stringLiteral_append_inj`: so a string literal tells where it ends, whatever stands in it;
* `scaleArgument_append_inj`: a scale ends where a comma or a bracket follows, unless it is a string
  literal;
* `argument_append_inj`: an argument that may be left out is there exactly if its name is;
* `diagramDirective_eq_iff`: so the directives of two diagrams are one text exactly if their
  arguments are the same, and that text is one line.
-/

namespace Galley

/-! ### String literals -/

/-- In a string literal a character stands for itself, or a backslash and a letter stand for it. -/
lemma escapeChar_spec (c : Char) :
    (escapeChar c = [c] ∧ c ≠ '\\' ∧ c ≠ '"') ∨
      ∃ d, escapeChar c = ['\\', d] ∧ Fence.escaped? d = some c := by
  unfold escapeChar
  split
  iterate 5 exact Or.inr ⟨_, rfl, rfl⟩
  · rename_i hbackslash hquote _ _ _
    exact Or.inl ⟨rfl, hbackslash, hquote⟩

lemma escapeString_cons (c : Char) (t : Text) :
    escapeString (c :: t) = escapeChar c ++ escapeString t := rfl

/-- No character of a text looks like the closing quotation mark. -/
lemma escapeChar_append_ne_quote (c : Char) (u v : Text) : escapeChar c ++ u ≠ '"' :: v := by
  intro h
  rcases escapeChar_spec c with ⟨hc, -, hquote⟩ | ⟨d, hc, -⟩
  · rw [hc] at h
    exact hquote (List.cons.inj h).1
  · rw [hc] at h
    have hhead : '\\' = '"' := (List.cons.inj h).1
    simp at hhead

lemma escapeChar_append_inj {c d : Char} {u v : Text} (h : escapeChar c ++ u = escapeChar d ++ v) :
    c = d ∧ u = v := by
  rcases escapeChar_spec c with ⟨hc, hcslash, -⟩ | ⟨e, hc, he⟩ <;>
    rcases escapeChar_spec d with ⟨hd, hdslash, -⟩ | ⟨f, hd, hf⟩ <;> rw [hc, hd] at h
  · exact List.cons.inj h
  · exact absurd (List.cons.inj h).1 hcslash
  · exact absurd (List.cons.inj h).1.symm hdslash
  · obtain ⟨rfl, hrest⟩ := List.cons.inj (List.cons.inj h).2
    exact ⟨Option.some.inj (he.symm.trans hf), hrest⟩

/-- The body of a string literal ends at the first quotation mark that is not escaped. -/
lemma escapeString_quote_inj {s t u v : Text}
    (h : escapeString s ++ '"' :: u = escapeString t ++ '"' :: v) : s = t ∧ u = v := by
  induction s generalizing t with
  | nil =>
      cases t with
      | nil => exact ⟨rfl, (List.cons.inj h).2⟩
      | cons d t =>
          rw [escapeString_cons, List.append_assoc] at h
          exact absurd h.symm (escapeChar_append_ne_quote d _ u)
  | cons c s ih =>
      cases t with
      | nil =>
          rw [escapeString_cons, List.append_assoc] at h
          exact absurd h (escapeChar_append_ne_quote c _ v)
      | cons d t =>
          rw [escapeString_cons, escapeString_cons, List.append_assoc, List.append_assoc] at h
          obtain ⟨rfl, hrest⟩ := escapeChar_append_inj h
          obtain ⟨rfl, huv⟩ := ih hrest
          exact ⟨rfl, huv⟩

/-- A string literal tells its text, and where it ends. -/
lemma stringLiteral_append_inj {s t u v : Text}
    (h : stringLiteral s ++ u = stringLiteral t ++ v) : s = t ∧ u = v := by
  simp only [stringLiteral, List.cons_append, List.append_assoc, List.nil_append] at h
  exact escapeString_quote_inj (List.cons.inj h).2

/-! ### Scales -/

/-- What stands behind an argument: the comma in front of another one, or the bracket that ends the
call. -/
def isArgumentEnd (c : Char) : Bool := c == ',' || c == ')'

/-- The text goes on with the end of an argument. -/
def EndsArgument (u : Text) : Prop := ∃ c ∈ u.head?, isArgumentEnd c = true

/-- A scale is a string literal, or neither a quotation mark nor an end of an argument is in it. -/
lemma scaleArgument_cases (raw : Text) :
    (∃ t, scaleArgument raw = stringLiteral t) ∨
      '"' ∉ scaleArgument raw ∧ ∀ c ∈ scaleArgument raw, (!isArgumentEnd c) = true := by
  have hnumber : ∀ x : Binary64,
      '"' ∉ numberArgument x ∧ ∀ c ∈ numberArgument x, (!isArgumentEnd c) = true := by
    intro x
    have hsubset := numberArgument_subset x
    have hall : numberAlphabet.all (!isArgumentEnd ·) = true := by decide
    refine ⟨fun h => ?_, fun c hc => List.all_eq_true.mp hall c (hsubset hc)⟩
    exact absurd (hsubset h) (by decide)
  rw [scaleArgument]
  generalize raw.trim = trimmed
  split_ifs
  · exact Or.inr ⟨by decide, List.all_eq_true.mp (by decide)⟩
  · exact Or.inr ⟨by decide, List.all_eq_true.mp (by decide)⟩
  · split
    · split_ifs
      · exact Or.inr (hnumber _)
      · exact Or.inl ⟨trimmed, rfl⟩
    · exact Or.inl ⟨trimmed, rfl⟩

/-- Without quotation marks, nothing in front of the end of an argument begins as a string literal
does. -/
lemma bare_append_ne_stringLiteral {w u t v : Text} (hw : '"' ∉ w) (hu : EndsArgument u) :
    w ++ u ≠ stringLiteral t ++ v := by
  intro h
  cases w with
  | nil =>
      obtain ⟨c, hc, hend⟩ := hu
      rw [List.nil_append] at h
      rw [h] at hc
      obtain rfl : '"' = c := Option.some.inj hc
      simp [isArgumentEnd] at hend
  | cons c w =>
      have hhead : c = '"' := (List.cons.inj h).1
      exact hw (hhead ▸ List.mem_cons_self)

lemma takeWhile_bare {w u : Text} (hw : ∀ c ∈ w, (!isArgumentEnd c) = true)
    (hu : EndsArgument u) : (w ++ u).takeWhile (!isArgumentEnd ·) = w := by
  obtain ⟨c, hc, hend⟩ := hu
  obtain ⟨behind, rfl⟩ := List.head?_eq_some_iff.mp hc
  rw [List.takeWhile_append_of_pos hw, List.takeWhile_cons_of_neg (by simp [hend]),
    List.append_nil]

/-- A scale in front of the end of an argument tells its text, and where it ends. -/
lemma scaleArgument_append_inj {raw raw' u v : Text} (hu : EndsArgument u) (hv : EndsArgument v)
    (h : scaleArgument raw ++ u = scaleArgument raw' ++ v) :
    scaleArgument raw = scaleArgument raw' ∧ u = v := by
  rcases scaleArgument_cases raw with ⟨s, hs⟩ | ⟨hquote, hbare⟩ <;>
    rcases scaleArgument_cases raw' with ⟨t, ht⟩ | ⟨hquote', hbare'⟩
  · rw [hs, ht] at h ⊢
    obtain ⟨rfl, huv⟩ := stringLiteral_append_inj h
    exact ⟨rfl, huv⟩
  · rw [hs] at h
    exact absurd h.symm (bare_append_ne_stringLiteral hquote' hv)
  · rw [ht] at h
    exact absurd h (bare_append_ne_stringLiteral hquote hu)
  · have hcut := congrArg (List.takeWhile (!isArgumentEnd ·)) h
    rw [takeWhile_bare hbare hu, takeWhile_bare hbare' hv] at hcut
    rw [hcut] at h ⊢
    exact ⟨rfl, List.append_cancel_left h⟩

/-! ### Arguments that may be left out -/

/-- An argument with its name, behind a comma; nothing if it is left out. -/
def argument (name : Text) : Option Text → Text
  | none => []
  | some value => ", ".toList ++ (name ++ value)

/-- The scale argument that options ask for: none if there is no scale, or a blank one. -/
def shownScale (options : DiagramOptions) : Option Text :=
  match options.scale with
  | some scale => if scale.isVoid then none else some (scaleArgument scale)
  | none => none

lemma exists_scaleArgument {options : DiagramOptions} {value : Text}
    (h : value ∈ shownScale options) : ∃ raw, value = scaleArgument raw := by
  rw [shownScale] at h
  split at h
  · split_ifs at h
    · simp at h
    · exact ⟨_, (Option.some.inj h).symm⟩
  · simp at h

/-- The format that options ask for: none if there is no format, or an empty one. -/
def shownFormat (options : DiagramOptions) : Option Text :=
  match options.format with
  | some format => if format.isEmpty then none else some format
  | none => none

/-- What follows the preamble in a directive. -/
def behindPreamble (options : DiagramOptions) : Text :=
  argument "format: ".toList ((shownFormat options).map stringLiteral) ++ ") -->\n".toList

/-- What follows the scale in a directive. -/
def behindScale (options : DiagramOptions) : Text :=
  argument "preamble: ".toList (options.preamble.map stringLiteral) ++ behindPreamble options

/-- What follows the source in a directive. -/
def behindSource (options : DiagramOptions) : Text :=
  argument "scale: ".toList (shownScale options) ++ behindScale options

lemma flatMap_argument (name value : Text) :
    [name ++ value].flatMap (", ".toList ++ ·) = argument name (some value) := by
  rw [List.flatMap_singleton, argument]

/-- The arguments behind the source are those that are not left out. -/
lemma exists_diagramArguments (source : Text) (options : DiagramOptions) :
    ∃ shown,
      diagramArguments source options = ("diagram: ".toList ++ stringLiteral source) :: shown ∧
        shown.flatMap (", ".toList ++ ·) ++ ") -->\n".toList = behindSource options := by
  rw [diagramArguments, behindSource, behindScale, behindPreamble, shownScale, shownFormat]
  refine ⟨_, by rw [List.append_assoc, List.append_assoc, List.singleton_append], ?_⟩
  rw [List.flatMap_append, List.flatMap_append, List.append_assoc, List.append_assoc]
  refine congrArg₂ _ ?_ (congrArg₂ _ ?_ (congrArg₂ _ ?_ rfl))
  · cases options.scale with
    | none => rfl
    | some scale =>
        dsimp only
        split_ifs
        · rfl
        · exact flatMap_argument _ _
  · cases options.preamble with
    | none => rfl
    | some preamble => exact flatMap_argument _ _
  · cases options.format with
    | none => rfl
    | some format =>
        dsimp only
        split_ifs
        · rfl
        · exact flatMap_argument _ _

/-- A directive is its front, the source in a string literal, and the arguments that are not left
out. -/
lemma diagramDirective_eq (source : Text) (options : DiagramOptions) :
    diagramDirective source options =
      "<!--raw-typst #tikz_render(diagram: ".toList ++
        (stringLiteral source ++ behindSource options) := by
  obtain ⟨shown, harguments, hshown⟩ := exists_diagramArguments source options
  have hfront : "<!--raw-typst #tikz_render(diagram: ".toList =
      "<!--raw-typst #".toList ++ ("tikz_render(".toList ++ "diagram: ".toList) := by decide
  have hend : ") -->\n".toList = [')'] ++ " -->\n".toList := by decide
  unfold diagramDirective directive
  rw [harguments, joinWith_cons, ← hshown, hfront, hend]
  simp only [List.append_assoc]

lemma endsArgument_argument (name : Text) (value : Option Text) {u : Text} (hu : EndsArgument u) :
    EndsArgument (argument name value ++ u) := by
  cases value with
  | none => exact hu
  | some value => exact ⟨',', rfl, rfl⟩

/-- An argument that may be left out is there exactly if its name is. So it tells its value, and
where it ends, if its values do. -/
lemma argument_append_inj {name u v : Text} {value value' : Option Text}
    (hu : ¬", ".toList ++ name <+: u) (hv : ¬", ".toList ++ name <+: v)
    (hvalue : ∀ w ∈ value, ∀ w' ∈ value', w ++ u = w' ++ v → w = w' ∧ u = v)
    (h : argument name value ++ u = argument name value' ++ v) : value = value' ∧ u = v := by
  cases value with
  | none =>
      cases value' with
      | none => exact ⟨rfl, h⟩
      | some w' =>
          refine absurd ⟨w' ++ v, ?_⟩ hu
          simpa [argument] using h.symm
  | some w =>
      cases value' with
      | none =>
          refine absurd ⟨w ++ u, ?_⟩ hv
          simpa [argument] using h
      | some w' =>
          simp only [argument, List.append_assoc, List.append_cancel_left_eq] at h
          obtain ⟨rfl, huv⟩ := hvalue w rfl w' rfl h
          exact ⟨rfl, huv⟩

lemma map_stringLiteral_append_inj {u v : Text} (value value' : Option Text) :
    ∀ w ∈ value.map stringLiteral, ∀ w' ∈ value'.map stringLiteral,
      w ++ u = w' ++ v → w = w' ∧ u = v := by
  intro w hw w' hw' h
  obtain ⟨s, -, rfl⟩ := Option.mem_map.mp hw
  obtain ⟨t, -, rfl⟩ := Option.mem_map.mp hw'
  obtain ⟨rfl, huv⟩ := stringLiteral_append_inj h
  exact ⟨rfl, huv⟩

lemma stringLiteral_injective : Function.Injective stringLiteral := fun s t h =>
  (stringLiteral_append_inj (u := []) (v := []) (by rw [h])).1

lemma endsArgument_behindScale (options : DiagramOptions) : EndsArgument (behindScale options) :=
  endsArgument_argument _ _ (endsArgument_argument _ _ ⟨')', rfl, rfl⟩)

/-- What follows the source tells the arguments. -/
lemma behindSource_inj {options options' : DiagramOptions}
    (h : behindSource options = behindSource options') :
    shownScale options = shownScale options' ∧ options.preamble = options'.preamble ∧
      shownFormat options = shownFormat options' := by
  have hscales : ∀ w ∈ shownScale options, ∀ w' ∈ shownScale options',
      w ++ behindScale options = w' ++ behindScale options' →
        w = w' ∧ behindScale options = behindScale options' := by
    intro w hw w' hw' heq
    obtain ⟨raw, rfl⟩ := exists_scaleArgument hw
    obtain ⟨raw', rfl⟩ := exists_scaleArgument hw'
    exact scaleArgument_append_inj (endsArgument_behindScale _) (endsArgument_behindScale _) heq
  -- the names of later arguments tell them apart from an earlier one
  have hnoScale : ∀ o, ¬", ".toList ++ "scale: ".toList <+: behindScale o := by
    intro o
    rw [behindScale, behindPreamble]
    cases o.preamble <;> cases (shownFormat o).map stringLiteral <;> simp [argument]
  have hnoPreamble : ∀ o, ¬", ".toList ++ "preamble: ".toList <+: behindPreamble o := by
    intro o
    rw [behindPreamble]
    cases (shownFormat o).map stringLiteral <;> simp [argument]
  have hnoFormat : ¬", ".toList ++ "format: ".toList <+: ") -->\n".toList := by decide
  obtain ⟨hscale, hrest⟩ := argument_append_inj (hnoScale _) (hnoScale _) hscales h
  obtain ⟨hpreamble, hrest⟩ := argument_append_inj (hnoPreamble _) (hnoPreamble _)
    (map_stringLiteral_append_inj _ _) hrest
  obtain ⟨hformat, -⟩ := argument_append_inj hnoFormat hnoFormat
    (map_stringLiteral_append_inj _ _) hrest
  exact ⟨hscale, Option.map_injective stringLiteral_injective hpreamble,
    Option.map_injective stringLiteral_injective hformat⟩

lemma shownFormat_eq_iff {options options' : DiagramOptions} :
    shownFormat options = shownFormat options' ↔
      options.format.getD [] = options'.format.getD [] := by
  have hshown : ∀ o : DiagramOptions, (shownFormat o).getD [] = o.format.getD [] := by
    intro o
    rw [shownFormat]
    rcases o.format with _ | _ | ⟨c, cs⟩ <;> rfl
  have hnonempty : ∀ o : DiagramOptions, shownFormat o =
      if o.format.getD [] = [] then none else some (o.format.getD []) := by
    intro o
    rw [shownFormat]
    rcases o.format with _ | _ | ⟨c, cs⟩ <;> rfl
  constructor
  · intro h
    rw [← hshown, ← hshown, h]
  · intro h
    rw [hnonempty, hnonempty, h]

/-- The directives of two diagrams are one text exactly if the sources are the same, and the
preambles, the formats, where none is as good as an empty one, and the scale arguments, where a
blank one is none. And a directive is one line with a line feed at its end. -/
theorem diagramDirective_eq_iff (source source' : Text) (options options' : DiagramOptions) :
    (diagramDirective source options = diagramDirective source' options' ↔
      source = source' ∧ options.preamble = options'.preamble ∧
        options.format.getD [] = options'.format.getD [] ∧
        shownScale options = shownScale options') ∧
      (diagramDirective source options).count '\n' = 1 ∧
      (diagramDirective source options).getLast? = some '\n' ∧
      '\r' ∉ diagramDirective source options := by
  refine ⟨⟨fun h => ?_, ?_⟩, ?_⟩
  · rw [diagramDirective_eq, diagramDirective_eq] at h
    obtain ⟨hsource, hrest⟩ := stringLiteral_append_inj (List.append_cancel_left h)
    obtain ⟨hscale, hpreamble, hformat⟩ := behindSource_inj hrest
    exact ⟨hsource, hpreamble, shownFormat_eq_iff.mp hformat, hscale⟩
  · rintro ⟨rfl, hpreamble, hformat, hscale⟩
    rw [diagramDirective_eq, diagramDirective_eq, behindSource, behindSource, behindScale,
      behindScale, behindPreamble, behindPreamble, hscale, hpreamble,
      shownFormat_eq_iff.mpr hformat]
  · obtain ⟨line, hline, hplain, -⟩ := diagramDirective_line source options
    have hfeed : '\n' ∉ line := fun h => by simpa [isLineBreak] using hplain _ h
    have hreturn : '\r' ∉ line := fun h => by simpa [isLineBreak] using hplain _ h
    rw [hline]
    refine ⟨?_, by simp, by simpa using hreturn⟩
    rw [List.count_append, List.count_eq_zero_of_not_mem hfeed]
    rfl

end Galley
