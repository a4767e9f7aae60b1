import Galley.Proofs.Markdown.Starts
import Galley.Proofs.Markdown.WovenQuotes
import Mathlib.Tactic

/-!
What is found among labels.

* `Follows`: events with the blocks of labels between them, where containers may be others;
* `Labelling.Tame`: each label of a range stands above the first line of a block;
* `Woven.leadRule`, `Woven.trailRule`: the leaf that begins at a line is found again among labels.
-/

namespace Galley.Markdown

/-! ### Events -/

/-- The block of a label: raw HTML that is its line. -/
def Labelling.IsLabelBlock (s : Labelling) (b : Block) : Prop :=
  ∃ n, s.above n = true ∧ b.first = s.top n ∧
    ∃ blanks : Text, (∀ c ∈ blanks, isBlank c = true) ∧
      b.shape = .html (blanks ++ labelDirective (s.id n))

/-- The second events are the first ones with their lines where they are among labels. Containers
may be others, and blocks of a kind come in addition. -/
inductive Follows (s : Labelling) (P : Block → Prop) : List Event → List Event → Prop where
  | nil : Follows s P [] []
  | kept {e : Event} {es es' : List Event} (he : ∀ b, e = .block b → b.shape.isContainer = false)
      (h : Follows s P es es') : Follows s P (e :: es) (s.moveEvent e :: es')
  | dropped {b : Block} {es es' : List Event} (hb : b.shape.isContainer = true)
      (h : Follows s P es es') : Follows s P (.block b :: es) es'
  | added {b : Block} {es es' : List Event} (hb : b.shape.isContainer = true ∨ P b)
      (h : Follows s P es es') : Follows s P es (.block b :: es')

section Follows

variable {s : Labelling} {P : Block → Prop} {es es' fs fs' : List Event}

lemma Follows.append (h : Follows s P es es') (hfs : Follows s P fs fs') :
    Follows s P (es ++ fs) (es' ++ fs') := by
  induction h with
  | nil => exact hfs
  | kept he _ ih => exact .kept he ih
  | dropped hb _ ih => exact .dropped hb ih
  | added hb _ ih => exact .added hb ih

/-- A container follows another one. -/
lemma Follows.container {b b' : Block} (hb : b.shape.isContainer = true)
    (hb' : b'.shape.isContainer = true) (h : Follows s P es es') :
    Follows s P (.block b :: es) (.block b' :: es') := .dropped hb (.added (Or.inl hb') h)

lemma Follows.note {label : Text} (h : Follows s P es es') :
    Follows s P (.openNote label :: (es ++ [.closeNote]))
      (.openNote label :: (es' ++ [.closeNote])) :=
  .kept (by simp) (h.append (.kept (by simp) .nil))

lemma IsLeaf.follows {isFence : Bool} {ctx : Context} {line : Nat} {found : Found}
    (h : IsLeaf isFence ctx line found) : Follows s P found.1 (s.move found).1 := by
  obtain ⟨leaf, past, -, -, rfl⟩ := h
  cases leaf with
  | block shape hshape =>
      refine .kept (fun b hb => ?_) .nil
      obtain rfl := Event.block.inj hb
      exact hshape
  | link label => exact .kept (by simp) .nil
  | short => exact .kept (by simp) .nil

end Follows

/-! ### Labels above blocks -/

/-- The shape is that of a heading. -/
def Shape.isHeading : Shape → Bool
  | .heading _ => true
  | _ => false

/-- Each label above a line from `low` to before `high` is above the first line of a block; it is
flush if that block is code, and then no container is around. List items with labels are bare, and
headings of several lines are plain. -/
structure Labelling.Tame (s : Labelling) (low high : Nat) (es : List Event) : Prop where
  begins : ∀ n, low ≤ n → n < high → s.above n = true → ∃ b, .block b ∈ es ∧ b.first = n ∧
    (s.flush n = true ↔ b.shape.isCode = true) ∧ (s.flush n = true → b.depth = 0)
  items : ∀ b, .block b ∈ es → b.shape = .item → s.above b.first = true → s.bare b.first
  headings : ∀ b, .block b ∈ es → b.shape.isHeading = true → b.first + 1 < b.past → s.plain b.first

section Tame

variable {s : Labelling} {low low' high high' cut n limit first : Nat} {es es' : List Event}

/-- A part of the events has the labels of its range. -/
lemma Labelling.Tame.part (h : s.Tame low high es) (hlow : low ≤ low') (hhigh : high' ≤ high)
    (hsub : ∀ b, .block b ∈ es' → .block b ∈ es)
    (hin : ∀ b, .block b ∈ es → low' ≤ b.first → b.first < high' → .block b ∈ es') :
    s.Tame low' high' es' where
  begins n hn hlt habove := by
    obtain ⟨b, hb, rfl, hflush⟩ := h.begins n (hlow.trans hn) (hlt.trans_le hhigh) habove
    exact ⟨b, hin b hb hn hlt, rfl, hflush⟩
  items b hb := h.items b (hsub b hb)
  headings b hb := h.headings b (hsub b hb)

/-- Inside a container that begins at a line, the labels are those behind that line. -/
lemma Labelling.Tame.inside {b : Block} (h : s.Tame low high (.block b :: es))
    (hb : b.first < low) : s.Tame low high es := by
  refine h.part le_rfl le_rfl (fun d hd => List.mem_cons_of_mem _ hd) fun d hd hlow _ => ?_
  rcases List.mem_cons.mp hd with heq | hd
  · obtain rfl := Event.block.inj heq
    omega
  · exact hd

/-- The labels of two runs, the second of which begins where the first one ends. -/
lemma Labelling.Tame.append {depth mid past : Nat} {fs : List Event}
    (h : s.Tame low high (es ++ fs)) (hes : BeginWithin depth mid es) (hfs : InOrder mid past fs)
    (hlow : low ≤ mid) (hmid : mid ≤ high) : s.Tame low mid es ∧ s.Tame mid high fs := by
  refine ⟨h.part le_rfl hmid (fun b hb => List.mem_append_left _ hb) fun b hb _ hlt => ?_,
    h.part hlow le_rfl (fun b hb => List.mem_append_right _ hb) fun b hb hle _ => ?_⟩
  · refine (List.mem_append.mp hb).resolve_right fun hb => ?_
    have := (hfs.bounds hb).1
    omega
  · refine (List.mem_append.mp hb).resolve_left fun hb => ?_
    have := (hes b hb).2
    omega

/-- There are no labels inside a leaf, and it ends in front of the cut. -/
lemma IsLeaf.clear {isFence : Bool} {ctx : Context} {lines lines' : Lines} {found : Found}
    (h : IsLeaf isFence ctx n found) (hwoven : Woven s cut first limit lines lines') (hn : n < cut)
    (hcut : cut ≤ limit ∨ found.2 ≤ cut) (htame : s.Tame (n + 1) found.2 found.1) :
    s.Clear cut n found := by
  have hquiet : s.Quiet (n + 1) found.2 := by
    intro m hm hlt
    cases habove : s.above m with
    | false => rfl
    | true =>
        obtain ⟨b, hb, hfirst, -⟩ := htame.begins m hm hlt habove
        obtain ⟨leaf, past, -, -, rfl⟩ := h
        cases leaf with
        | block shape hshape =>
            obtain rfl := Event.block.inj (List.mem_singleton.mp hb)
            simp at hfirst
            omega
        | link label => simp [Leaf.found] at hb
        | short => simp [Leaf.found] at hb
  refine ⟨?_, hquiet⟩
  rcases hcut with hcut | hcut
  · by_contra hover
    have := hquiet cut hn (Nat.lt_of_not_le hover)
    rw [(hwoven.edge hcut).1] at this
    exact Bool.noConfusion this
  · exact hcut

end Tame

/-! ### Leaves at a line -/

/-- The leaf that begins at a line and is looked for in front of quotes. -/
def leadRule (ctx : Context) (lines : Lines) (line stop : Nat) : Option Found :=
  tableRule ctx lines line stop <|> codeRule ctx lines line stop <|>
    mathRule ctx lines line stop <|>
    fenceRule ctx lines line stop

/-- The leaf that begins at a line where no other block does. -/
def trailRule (ctx : Context) (lines : Lines) (line stop : Nat) : Found :=
  (definitionRule ctx lines line stop <|> htmlRule ctx lines line stop <|>
    headingRule ctx lines line stop <|> underlinedRule ctx lines line stop).getD
  (paragraph ctx lines line)

lemma blockAt_eq (inner items : Reader) (ctx : Context) (lines : Lines) (line stop : Nat) :
    blockAt inner items ctx lines line stop =
      (leadRule ctx lines line stop
        <|> quoteRule inner ctx lines line stop
        <|> breakRule ctx lines line stop
        <|> listRule items ctx lines line stop
        <|> noteRule inner ctx lines line stop).getD (trailRule ctx lines line stop) := by
  rw [blockAt, leadRule, trailRule]
  simp only [Option.orElse_eq_orElse, Option.orElse_eq_or, Option.or_assoc, Option.getD_or]

/-- The first of two rules that finds something finds it among labels, if both do. -/
lemma orElse_move {s : Labelling} {P : Found → Prop} {rule other rule' other' : Option Found}
    (hrule : (∀ found, rule = some found → P found) → rule' = rule.map s.move)
    (hother : (∀ found, other = some found → P found) → other' = other.map s.move)
    (h : ∀ found, (rule <|> other) = some found → P found) :
    (rule' <|> other') = (rule <|> other).map s.move := by
  cases rule with
  | some found =>
      rw [hrule fun _ hfound => h _ hfound]
      rfl
  | none =>
      rw [hrule (by simp), hother fun _ hfound => h _ hfound]
      rfl

section Rules

variable {ctx : Context} {lines lines' : Lines} {n stop : Nat}

/-- A link definition begins with a bracket. -/
lemma definitionRule_unbracketed (h : (lines.at n).content.head? ≠ some '[') :
    definitionRule ctx lines n stop = none := by
  by_contra hsome
  obtain ⟨found, hfound⟩ := Option.ne_none_iff_exists'.mp hsome
  obtain ⟨-, rest, r, key, past, hcontent, -, -, -⟩ := definitionRule_iff.mp hfound
  rw [Line.contentWithBreak] at hcontent
  cases hline : (lines.at n).content with
  | nil =>
      rw [hline, List.nil_append] at hcontent
      split_ifs at hcontent
      simp at hcontent
  | cons c cs =>
      rw [hline] at h
      rw [hline, List.cons_append] at hcontent
      exact h (by rw [(List.cons.inj hcontent).1, List.head?_cons])

lemma htmlRule_head {found : Found} (h : htmlRule ctx lines n stop = some found) :
    (lines.at n).content.head? = some '<' := by
  rw [htmlRule] at h
  split_ifs at h
  obtain ⟨kind, hkind, -⟩ := Option.map_eq_some_iff.mp h
  unfold htmlKind? at hkind
  split at hkind
  · rename_i heq
    rw [heq, List.head?_cons]
  · simp at hkind

lemma headingRule_head {found : Found} (h : headingRule ctx lines n stop = some found) :
    (lines.at n).content.head? = some '#' := by
  rw [headingRule] at h
  split_ifs at h
  obtain ⟨text, htext, -⟩ := Option.map_eq_some_iff.mp h
  cases hcontent : (lines.at n).content with
  | nil =>
      rw [hcontent] at htext
      simp [headingText?] at htext
  | cons c cs =>
      rw [hcontent, headingText?] at htext
      rw [List.head?_cons]
      by_contra hne
      rw [List.takeWhile_cons_of_neg (by simpa using hne)] at htext
      simp at htext

/-- A heading made by an underline has more than one line. -/
lemma underlinedRule_heading {found : Found} (h : underlinedRule ctx lines n stop = some found) :
    ∃ b, .block b ∈ found.1 ∧ b.shape.isHeading = true ∧ b.first = n ∧ b.first + 1 < b.past := by
  rw [underlinedRule] at h
  split_ifs at h
  obtain ⟨last, hlast, rfl⟩ := Option.map_eq_some_iff.mp h
  have := le_underline hlast
  exact ⟨_, List.mem_singleton_self _, rfl, rfl, show n + 1 < last + 1 by omega⟩

variable {s : Labelling} {cut first : Nat}
variable (h : Woven s cut first ctx.limit lines lines') (hfirst : first ≤ n) (hn : n < cut)
variable (hstop : stop ≤ ctx.limit)
include h hfirst hn hstop

lemma Woven.leadRule
    (hclear : ∀ found, leadRule ctx lines n stop = some found → s.Clear cut n found) :
    leadRule (ctx.within s cut) lines' (s.pos n) (s.top (min stop cut)) =
      (leadRule ctx lines n stop).map s.move :=
  orElse_move (h.tableRule hfirst hn hstop) (orElse_move (h.codeRule hfirst hn hstop)
    (orElse_move (h.mathRule hfirst hn) (h.fenceRule hfirst hn))) hclear

lemma Woven.trailRule (hclear : s.Clear cut n (trailRule ctx lines n stop))
    (hplain : ∀ b, .block b ∈ (Markdown.trailRule ctx lines n stop).1 → b.shape.isHeading = true →
      b.first + 1 < b.past → s.plain b.first) :
    Markdown.trailRule (ctx.within s cut) lines' (s.pos n) (s.top (min stop cut)) =
      s.move (Markdown.trailRule ctx lines n stop) := by
  have hat := h.at_pos hfirst hn
  have hundefined : (lines.at n).content.head? ≠ some '[' →
      definitionRule (ctx.within s cut) lines' (s.pos n) (s.top (min stop cut)) = none := by
    intro hhead
    refine definitionRule_unbracketed ?_
    rwa [hat]
  rw [Markdown.trailRule] at hclear hplain ⊢
  rw [Markdown.trailRule]
  simp only [Option.orElse_eq_orElse, Option.orElse_eq_or] at hclear hplain ⊢
  cases hdefinition : definitionRule ctx lines n stop with
  | some found =>
      rw [hdefinition] at hclear
      rw [h.definitionRule_some _ hfirst hdefinition hclear.1 hclear.2]
      obtain ⟨-, rest, r, key, past, -, -, -, rfl⟩ := definitionRule_iff.mp hdefinition
      rfl
  | none =>
      rw [hdefinition] at hclear hplain
      simp only [Option.none_or] at hclear hplain ⊢
      cases hhtml : Markdown.htmlRule ctx lines n stop with
      | some found =>
          have hsame := h.htmlRule hfirst hn fun found'
              (hfound' : Markdown.htmlRule ctx lines n stop = some found') => by
            rw [hhtml] at hclear hfound'
            obtain rfl := Option.some.inj hfound'
            exact hclear
          rw [hundefined (by rw [htmlRule_head hhtml]; decide), hsame, hhtml]
          rfl
      | none =>
          have hnone : ∀ found', Markdown.htmlRule ctx lines n stop = some found' →
              s.Clear cut n found' := by simp [hhtml]
          have hsame := h.htmlRule hfirst hn hnone
          rw [hhtml] at hclear hplain
          simp only [Option.none_or] at hclear hplain ⊢
          rw [hsame, hhtml, h.headingRule hfirst hn stop]
          cases hheading : Markdown.headingRule ctx lines n stop with
          | some found =>
              rw [hundefined (by rw [headingRule_head hheading]; decide)]
              rfl
          | none =>
              rw [hheading] at hclear hplain
              simp only [Option.none_or] at hclear hplain ⊢
              cases hunderlined : underlinedRule ctx lines n stop with
              | some found =>
                  rw [hunderlined] at hclear hplain
                  obtain ⟨b, hb, hshape, rfl, hlong⟩ := underlinedRule_heading hunderlined
                  have hbracket := h.plain b.first hfirst hn (hplain b hb hshape hlong)
                  have hhead : (lines.at b.first).content.head? ≠ some '[' :=
                    fun heq => hbracket (List.mem_of_mem_head? heq)
                  rw [hundefined hhead, h.underlinedRule_some hfirst hn hstop hunderlined hclear]
                  rfl
              | none =>
                  rw [hunderlined] at hclear
                  have hsame := h.continuations_paragraph (Nat.lt_add_one_of_le hfirst) hn rfl
                    hclear.1 hclear.2
                  rw [h.definitionRule_none _ hfirst hn hdefinition hsame,
                    h.underlinedRule_none hfirst hn hstop hunderlined hclear,
                    h.paragraph hfirst hn hclear]
                  rfl

end Rules

end Galley.Markdown
