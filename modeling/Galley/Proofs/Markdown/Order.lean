import Galley.Proofs.Markdown.Notes
import Mathlib.Tactic

/-!
The order of the blocks of a document, those that hold others included.

* `Block.frontier`: the line in front of which no later block begins;
* `InOrder`: blocks lie between two lines, and none begins in front of the frontier of another one
  that was found before;
* `inOrder_law`: runs are of this kind, whatever containers there are;
* `parse_clear`: so no block begins inside a leaf block of the document.
-/

namespace Galley.Markdown

/-- No block that is found later begins in front of this line. A leaf is over there; the blocks that
a container holds begin on its first line or behind. -/
def Block.frontier (b : Block) : Nat := if b.shape.isContainer then b.first else b.past

/-- The blocks among the events lie between two lines, and each begins at or behind the frontiers of
those before it. -/
def InOrder (low high : Nat) : List Event → Prop
  | [] => low ≤ high
  | .block b :: es => low ≤ b.first ∧ b.first ≤ b.frontier ∧ InOrder b.frontier high es
  | _ :: es => InOrder low high es

section InOrder

variable {low mid high : Nat} {es fs : List Event} {b : Block}

lemma frontier_container (hb : b.shape.isContainer = true) : b.frontier = b.first := if_pos hb

lemma frontier_leaf (hb : b.shape.isContainer = false) : b.frontier = b.past :=
  if_neg (Bool.eq_false_iff.mp hb)

lemma InOrder.mono_left {low' : Nat} (h : InOrder low high es) (hlow : low' ≤ low) :
    InOrder low' high es := by
  induction es generalizing low with
  | nil => exact hlow.trans h
  | cons e es ih =>
      cases e with
      | block b => exact ⟨hlow.trans h.1, h.2⟩
      | _ => exact ih h hlow

lemma InOrder.append (hes : InOrder low mid es) (hfs : InOrder mid high fs) :
    InOrder low high (es ++ fs) := by
  induction es generalizing low with
  | nil => exact hfs.mono_left hes
  | cons e es ih =>
      cases e with
      | block b => exact ⟨hes.1, hes.2.1, ih hes.2.2⟩
      | _ => exact ih hes

/-- Every block begins at or behind the line where the events begin, and not behind its frontier. -/
lemma InOrder.bounds (h : InOrder low high es) (hb : .block b ∈ es) :
    low ≤ b.first ∧ b.first ≤ b.frontier := by
  induction es generalizing low with
  | nil => simp at hb
  | cons e es ih =>
      rcases List.mem_cons.mp hb with rfl | htail
      · exact ⟨h.1, h.2.1⟩
      · cases e with
        | block d =>
            obtain ⟨hlow, hfrontier, hrest⟩ := h
            have := ih hrest htail
            omega
        | _ => exact ih h htail

/-- Of two blocks, the later one begins at or behind the frontier of the other one. -/
lemma InOrder.pairwise (h : InOrder low high es) :
    (blocks es).Pairwise fun b c => b.frontier ≤ c.first := by
  induction es generalizing low with
  | nil => exact List.Pairwise.nil
  | cons e es ih =>
      cases e with
      | block b =>
          obtain ⟨-, -, hrest⟩ := h
          have hcons : blocks (.block b :: es) = b :: blocks es := rfl
          rw [hcons]
          exact List.pairwise_cons.mpr ⟨fun c hc => (hrest.bounds (mem_blocks.mp hc)).1, ih hrest⟩
      | _ => exact ih h

end InOrder

/-- The blocks of any run are in order. -/
lemma inOrder_law : RunLaw InOrder where
  nil := id
  append := InOrder.append
  leaf := by
    rintro isFence ctx line found ⟨leaf, past, -, hpast, rfl⟩
    cases leaf with
    | block shape hshape =>
        have hfrontier : (Block.mk shape line past ctx.depth).frontier = past :=
          frontier_leaf hshape
        refine ⟨le_rfl, ?_, ?_⟩
        · rw [hfrontier]
          exact hpast.le
        · rw [hfrontier]
          exact le_refl past
    | link label => exact hpast.le
    | short => exact hpast.le
  container := by
    rintro b low high es hb rfl h
    refine ⟨le_rfl, (frontier_container hb).ge, ?_⟩
    rwa [frontier_container hb]
  note {label low high es} h := h.append (show InOrder high high [.closeNote] from le_rfl)

/-- No block of a document begins inside one of its leaf blocks: it begins on the first line of the
leaf or in front of it, or where the leaf is over. -/
theorem parse_clear {text : Text} {bs : List Block} (h : parse text = .ok bs) :
    ∀ b ∈ bs, ∀ c ∈ bs, b.shape.isContainer = false → c.first ≤ b.first ∨ b.past ≤ c.first := by
  rw [parse] at h
  split_ifs at h
  obtain rfl := Except.ok.inj h
  obtain ⟨past, hordered⟩ : ∃ past, InOrder 0 past (documentEvents text) :=
    blockEvents_law inOrder_law _
  have hapart : ∀ b ∈ blocks (documentEvents text), ∀ c ∈ blocks (documentEvents text),
      b.shape.isContainer = false → c.first ≤ b.first ∨ b.past ≤ c.first := by
    refine fun b hb c hc => List.Pairwise.forall_of_forall_of_flip
      (R := fun b c => b.shape.isContainer = false → c.first ≤ b.first ∨ b.past ≤ c.first)
      (fun b _ _ => Or.inl le_rfl) ?_ ?_ hb hc
    · -- the leaf is found first
      exact hordered.pairwise.imp fun {b c} hbc hleaf => Or.inr (frontier_leaf hleaf ▸ hbc)
    · -- the leaf is found second
      refine hordered.pairwise.imp_of_mem fun {b c} hb _ hbc _ => Or.inl ?_
      exact (hordered.bounds (mem_blocks.mp hb)).2.trans hbc
  have hsubset := (blocksOf_subperm (documentEvents text)).subset
  exact fun b hb c hc => hapart b (hsubset hb) c (hsubset hc)

end Galley.Markdown
