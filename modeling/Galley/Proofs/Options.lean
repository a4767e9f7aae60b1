import Galley.Proofs.Arguments
import Galley.Proofs.Words
import Mathlib.Tactic

/-!
Options that are written into an info string are read back, whatever their values hold: a value goes
into double quotes in the form that string literals have, and comes through the three layers of
reading, which cut words, split them at the equals sign, and trim and unescape values.

* `escapeString_eq_replaced`: escaping is five replacements, one after another;
* `unescape_escapeString`: the reader of values undoes it;
* `scanWord?_escapeString`: an escaped value does not close its quotes;
* `optionFields`, `optionWord`, `optionInfo`: options as an info string;
* `optionWord_isWord`, `option?_optionWord`: an option is one word, and is read as what it is;
* `diagramOptions?_optionInfo`: the options are read back, in whatever order they are written.
-/

namespace Galley

/-! ### Escaped values -/

/-- The text with a piece for every occurrence of a character. -/
def replaced (c : Char) (piece t : Text) : Text := t.flatMap fun d => if d = c then piece else [d]

/-- Escaping is five replacements. Backslashes come first, so that those of the later replacements
are not doubled. -/
theorem escapeString_eq_replaced (t : Text) :
    escapeString t =
      replaced '\t' ['\\', 't'] (replaced '\r' ['\\', 'r'] (replaced '\n' ['\\', 'n']
        (replaced '"' ['\\', '"'] (replaced '\\' ['\\', '\\'] t)))) := by
  have happend : ∀ (c : Char) (piece u v : Text),
      replaced c piece (u ++ v) = replaced c piece u ++ replaced c piece v :=
    fun _ _ _ _ => List.flatMap_append
  induction t with
  | nil => rfl
  | cons c t ih =>
      have hcons : replaced '\\' ['\\', '\\'] (c :: t) =
          replaced '\\' ['\\', '\\'] [c] ++ replaced '\\' ['\\', '\\'] t := happend _ _ [c] t
      rw [escapeString_cons, ih, hcons]
      simp only [happend]
      congr 1
      unfold escapeChar
      split
      iterate 5 rfl
      simp_all [replaced]

namespace Fence

/-- The reader of values undoes the escaping. -/
lemma unescape_escapeString (t : Text) : unescape (escapeString t) = t := by
  induction t with
  | nil => rfl
  | cons c t ih =>
      rw [escapeString_cons]
      rcases escapeChar_spec c with ⟨hc, hbackslash, -⟩ | ⟨d, hd, hescaped⟩
      · rw [hc, List.singleton_append, unescape, ih]
        exact fun _ _ h _ => hbackslash h
      · rw [hd, List.cons_append, List.singleton_append, unescape, hescaped]
        exact congrArg (c :: ·) ih

/-- An escaped value does not close its quotes: a single quote does not, and a double quote or a
backslash comes behind a backslash. -/
lemma scanWord?_escapeString (t : Text) :
    scanWord? (some '"') (escapeString t) = some (some '"') := by
  induction t with
  | nil => rfl
  | cons c t ih =>
      rw [escapeString_cons]
      rcases escapeChar_spec c with ⟨hc, hbackslash, hquote⟩ | ⟨d, hd, -⟩
      · have hstays : nextQuote (some '"') c = some '"' := by simpa [nextQuote] using hquote
        rw [hc, List.singleton_append, scanWord?_cons hbackslash, hstays, ih]
        simp
      · rw [hd, List.cons_append, List.singleton_append, scanWord?, ih]

/-! ### Options as words -/

/-- The options that are there, with their names. -/
def optionFields (options : DiagramOptions) : List (Text × Text) :=
  options.scale.toList.map ("scale".toList, ·) ++
    options.preamble.toList.map ("preamble".toList, ·) ++
    options.format.toList.map ("format".toList, ·)

/-- An option as a word, its value as a string literal. -/
def optionWord (field : Text × Text) : Text := field.1 ++ '=' :: stringLiteral field.2

/-- The info string of a diagram with options. -/
def optionInfo (fields : List (Text × Text)) : Text :=
  marker ++ fields.flatMap fun field => ' ' :: optionWord field

/-- The names of the options. -/
def optionNames : List Text := ["scale".toList, "preamble".toList, "format".toList]

lemma name_of_mem_optionFields {options : DiagramOptions} {field : Text × Text}
    (h : field ∈ optionFields options) : field.1 ∈ optionNames := by
  simp only [optionFields, List.mem_append, List.mem_map] at h
  rcases h with (⟨_, -, rfl⟩ | ⟨_, -, rfl⟩) | ⟨_, -, rfl⟩ <;> simp [optionNames]

/-- The value of an option is read back. -/
lemma optionValue_stringLiteral (value : Text) : optionValue (stringLiteral value) = value := by
  have hlast : (stringLiteral value).getLast? = some '"' := by
    rw [stringLiteral, ← List.cons_append, List.getLast?_concat]
  have huncut : ∀ p : Char → Bool, p '"' = false →
      trimBy p (stringLiteral value) = stringLiteral value := by
    intro p hp
    refine trimBy_eq_self (fun c hc => ?_) (fun c hc => ?_)
    · obtain rfl := Option.some.inj hc
      exact hp
    · obtain rfl := Option.some.inj (hlast.symm.trans hc)
      exact hp
  have hquoted : quoted? (stringLiteral value) = some (escapeString value) := by
    simp [quoted?, stringLiteral, isQuote]
  rw [optionValue, Text.trim, huncut _ (by decide), huncut _ (by decide), hquoted]
  exact unescape_escapeString value

section Word

variable {field : Text × Text} (h : field.1 ∈ optionNames)
include h

/-- An option is one word. -/
lemma optionWord_isWord : IsWord (optionWord field) := by
  have hname : scanWord? none field.1 = some none :=
    (by decide : ∀ name ∈ optionNames, scanWord? none name = some none) _ h
  have hopened : scanWord? none ('=' :: stringLiteral field.2) =
      scanWord? (some '"') (escapeString field.2 ++ ['"']) := rfl
  refine ⟨by simp [optionWord], ?_⟩
  rw [optionWord, scanWord?_append hname, hopened, scanWord?_append (scanWord?_escapeString _)]
  rfl

/-- It ends in a quotation mark, so nothing is cut off its ends. -/
lemma trim_optionWord : (optionWord field).trim = optionWord field := by
  have hplain : field.1.head?.any isSpace = false :=
    (by decide : ∀ name ∈ optionNames, name.head?.any isSpace = false) _ h
  have hname : ∀ c ∈ field.1.head?, isSpace c = false := by
    intro c hc
    rwa [Option.mem_def.mp hc] at hplain
  have hfilled : field.1 ≠ [] := (by decide : ∀ name ∈ optionNames, name ≠ []) _ h
  refine trimBy_eq_self ?_ ?_
  · rwa [optionWord, List.head?_append_of_ne_nil _ hfilled]
  · rw [optionWord, stringLiteral, ← List.cons_append, ← List.cons_append, ← List.append_assoc,
      List.getLast?_concat]
    rintro _ ⟨⟩
    rfl

/-- An option is read as what it is. -/
lemma option?_optionWord : option? (optionWord field) = some field := by
  have hname : ∀ c ∈ field.1, (c != '=') = true := List.all_eq_true.mp <|
    (by decide : ∀ name ∈ optionNames, (name.all fun c => c != '=') = true) _ h
  have hkey : optionKey field.1 = field.1 :=
    (by decide : ∀ name ∈ optionNames, optionKey name = name) _ h
  rw [option?, optionWord, List.dropWhile_append_of_pos hname, List.takeWhile_append_of_pos hname]
  simp [hkey, optionValue_stringLiteral]

/-- So it is set, and nothing else. -/
lemma setOption_optionWord (options : DiagramOptions) :
    setOption options (optionWord field) =
      if field.1 == "scale".toList then { options with scale := some field.2 }
      else if field.1 == "preamble".toList then { options with preamble := some field.2 }
      else if field.1 == "format".toList then { options with format := some field.2 }
      else options := by
  rw [setOption, option?_optionWord h]

end Word

/-! ### Info strings -/

lemma marker_isWord : IsWord marker := ⟨by decide, by decide⟩

/-- A word with options behind it. -/
lemma words_append_options {w : Text} {fields : List (Text × Text)} (hw : IsWord w)
    (h : ∀ field ∈ fields, field.1 ∈ optionNames) :
    words (w ++ fields.flatMap fun field => ' ' :: optionWord field) =
      w.trim :: fields.map optionWord := by
  induction fields generalizing w with
  | nil => rw [List.flatMap_nil, List.append_nil, words_of_isWord hw, List.map_nil]
  | cons field fields ih =>
      obtain ⟨hfield, hfields⟩ := List.forall_mem_cons.mp h
      rw [List.flatMap_cons, List.cons_append, words_append hw rfl,
        ih (optionWord_isWord hfield) hfields, trim_optionWord hfield, List.map_cons]

/-- An info string begins with a letter, and ends in one or in a quotation mark. -/
lemma trim_optionInfo (fields : List (Text × Text)) :
    (optionInfo fields).trim = optionInfo fields := by
  refine trimBy_eq_self ?_ ?_
  · rintro _ ⟨⟩
    decide
  · rcases List.eq_nil_or_concat fields with rfl | ⟨front, field, rfl⟩
    · rintro _ ⟨⟩
      decide
    · have hend : ∃ u, optionInfo (front ++ [field]) = u ++ ['"'] :=
        ⟨optionInfo front ++ ' ' :: (field.1 ++ '=' :: '"' :: escapeString field.2), by
          simp [optionInfo, optionWord, stringLiteral]⟩
      obtain ⟨u, hu⟩ := hend
      rw [List.concat_eq_append, hu, List.getLast?_concat]
      rintro _ ⟨⟩
      decide

/-- Each option has its own place. -/
lemma setOption_named :
    (∀ o v, setOption o (optionWord ("scale".toList, v)) = { o with scale := some v }) ∧
      (∀ o v, setOption o (optionWord ("preamble".toList, v)) = { o with preamble := some v }) ∧
      ∀ o v, setOption o (optionWord ("format".toList, v)) = { o with format := some v } := by
  refine ⟨fun o v => ?_, fun o v => ?_, fun o v => ?_⟩ <;>
    rw [setOption_optionWord (by simp [optionNames])] <;> rfl

/-- Options have different names, so it does not matter in which order they are set. -/
lemma foldl_setOption_perm {options : DiagramOptions} {fields : List (Text × Text)}
    (h : fields.Perm (optionFields options)) :
    (fields.map optionWord).foldl setOption {} = options := by
  have hnames : ∀ field ∈ optionFields options, field.1 ∈ optionNames := fun _ =>
    name_of_mem_optionFields
  have hcommute : ∀ a ∈ optionFields options, ∀ b ∈ optionFields options, ∀ o,
      setOption (setOption o (optionWord a)) (optionWord b) =
        setOption (setOption o (optionWord b)) (optionWord a) := by
    intro a ha b hb o
    simp only [setOption_optionWord (hnames a ha), setOption_optionWord (hnames b hb)]
    simp only [optionFields, List.mem_append, List.mem_map, Option.mem_toList] at ha hb
    rcases ha with (⟨v, hv, rfl⟩ | ⟨v, hv, rfl⟩) | ⟨v, hv, rfl⟩ <;>
      rcases hb with (⟨w, hw, rfl⟩ | ⟨w, hw, rfl⟩) | ⟨w, hw, rfl⟩ <;> simp_all
  obtain ⟨hscale, hpreamble, hformat⟩ := setOption_named
  have hcanonical : (optionFields options).foldl
      (fun o field => setOption o (optionWord field)) {} = options := by
    obtain ⟨scale, preamble, format⟩ := options
    cases scale <;> cases preamble <;> cases format <;>
      simp only [optionFields, Option.toList, List.map_cons, List.map_nil, List.nil_append,
        List.append_nil, List.cons_append, List.foldl_cons, List.foldl_nil, hscale, hpreamble,
        hformat]
  have hswap : ∀ a ∈ fields, ∀ b ∈ fields, ∀ o,
      setOption (setOption o (optionWord a)) (optionWord b) =
        setOption (setOption o (optionWord b)) (optionWord a) := fun a ha b hb =>
    hcommute a (h.mem_iff.mp ha) b (h.mem_iff.mp hb)
  rw [List.foldl_map, h.foldl_eq' hswap, hcanonical]

/-- The options of an info string are those that were written into it, in whatever order they
stand, and whatever characters their values hold. -/
theorem diagramOptions?_optionInfo {options : DiagramOptions} {fields : List (Text × Text)}
    (h : fields.Perm (optionFields options)) :
    diagramOptions? (optionInfo fields) = some options := by
  have hnames : ∀ field ∈ fields, field.1 ∈ optionNames := fun field hfield =>
    name_of_mem_optionFields (h.mem_iff.mp hfield)
  have hmarker : lowerWord (trimBy isBracket marker.trim) = marker := by decide
  rw [diagramOptions?, trim_optionInfo, optionInfo,
    words_append_options marker_isWord hnames]
  dsimp only
  rw [if_pos hmarker, foldl_setOption_perm h]

/-- Values with both quotation marks, separators, an equals sign, line breaks and a backslash at
the end, and the options not in their usual order. -/
theorem diagramOptions?_optionInfo_quotes :
    let scale := "a\"b, ;='\\".toList
    let preamble := " x\n\ty ".toList
    let fields := [("preamble".toList, preamble), ("scale".toList, scale)]
    let options : DiagramOptions := { scale := some scale, preamble := some preamble }
    fields.Perm (optionFields options) ∧
      optionInfo fields =
        "tikz preamble=\" x\\n\\ty \" scale=\"a\\\"b, ;='\\\\\"".toList ∧
      diagramOptions? (optionInfo fields) = some options :=
  ⟨by decide, by decide, diagramOptions?_optionInfo (by decide)⟩

end Fence

end Galley
