import Galley.Proofs.Markdown.Spans
import Mathlib.Tactic

/-!
Sequences of blocks step by step.

* `Run`: what a sequence does from a line on: it is over, or left, or a block follows;
* `run_sequence`, `sequence_eq_of_run`: with enough fuel it is what `sequence` does;
* `Run.back`: a run may begin at the blank lines in front of it.
-/

namespace Galley.Markdown

/-- The line where a sequence goes on behind a block: one blank line is taken with the block. -/
def afterBlock (lines : Lines) (stop next : Nat) : Nat :=
  if next < stop && (lines.at next).isVoid then next + 1 else next

/-- The line where a sequence looks for a block. -/
def Context.start (ctx : Context) (lines : Lines) (line : Nat) : Nat :=
  skipVoid lines (ctx.limit - line) line

/-- A sequence of blocks from a line on, with its events and the line behind it. -/
inductive Run (rules : Context → Lines → Nat → Nat → Found) (ctx : Context) (lines : Lines)
    (stop : Nat) : Nat → List Event → Nat → Prop where
  | ended {line : Nat} (h : stop ≤ line) : Run rules ctx lines stop line [] line
  | left {line : Nat} (h : line < stop) (hleft : stop ≤ ctx.start lines line ∨
      (lines.at (ctx.start lines line)).indent < ctx.indent) :
      Run rules ctx lines stop line [] (ctx.start lines line)
  | block {line next past : Nat} {es fs : List Event} (h : line < stop)
      (hstart : ctx.start lines line < stop)
      (hinside : (ctx.indent : Int) ≤ (lines.at (ctx.start lines line)).indent)
      (hrules : rules ctx lines (ctx.start lines line) stop = (es, next))
      (hrest : Run rules ctx lines stop (afterBlock lines stop next) fs past) :
      Run rules ctx lines stop line (es ++ fs) past

section Run

variable {rules : Context → Lines → Nat → Nat → Found} {ctx : Context} {lines : Lines}
variable {stop line past : Nat} {es : List Event}

lemma le_start : line ≤ ctx.start lines line := le_skipVoid _ _ _

lemma le_afterBlock (next : Nat) : next ≤ afterBlock lines stop next := by
  rw [afterBlock]
  split_ifs <;> omega

lemma ready_start (hbounded : stop ≤ ctx.limit) (hstart : ctx.start lines line < stop)
    (hinside : (ctx.indent : Int) ≤ (lines.at (ctx.start lines line)).indent) :
    Ready ctx lines (ctx.start lines line) stop :=
  ready_of_skipVoid hbounded (Nat.not_le.mpr hstart) (Int.not_lt.mpr hinside)

/-- A line with content is not skipped. -/
lemma start_of_filled (h : (lines.at line).isVoid = false) : ctx.start lines line = line := by
  rw [Context.start]
  cases ctx.limit - line with
  | zero => rfl
  | succ fuel => rw [skipVoid, h, if_neg Bool.false_ne_true]

/-- A blank line in front of the limit is skipped. -/
lemma start_of_void (h : (lines.at line).isVoid = true) (hlimit : line < ctx.limit) :
    ctx.start lines line = ctx.start lines (line + 1) := by
  rw [Context.start, Context.start, show ctx.limit - line = ctx.limit - (line + 1) + 1 by omega,
    skipVoid, if_pos h]

lemma sequence_succ (fuel : Nat) : sequence rules ctx lines stop (fuel + 1) line =
    if stop ≤ line then ([], line)
    else if stop ≤ ctx.start lines line ∨ (lines.at (ctx.start lines line)).indent < ctx.indent then
      ([], ctx.start lines line)
    else
      let found := rules ctx lines (ctx.start lines line) stop
      let more := sequence rules ctx lines stop fuel (afterBlock lines stop found.2)
      (found.1 ++ more.1, more.2) := by
  rw [sequence]
  simp only [Bool.or_eq_true, decide_eq_true_eq]
  rfl

variable (hbounded : stop ≤ ctx.limit)
include hbounded

lemma start_start (hstart : ctx.start lines line < stop) :
    ctx.start lines (ctx.start lines line) = ctx.start lines line := by
  have hle : line ≤ ctx.start lines line := le_start
  refine start_of_filled (skipVoid_filled ?_)
  change ctx.start lines line < _
  omega

/-- A run may begin at the blank lines in front of it. -/
lemma Run.back (hline : line < stop) (hstart : ctx.start lines line < stop)
    (h : Run rules ctx lines stop (ctx.start lines line) es past) :
    Run rules ctx lines stop line es past := by
  have hsame := start_start hbounded hstart
  generalize hn : ctx.start lines line = n at h hsame hstart
  cases h with
  | ended hover => exact absurd hstart (Nat.not_lt.mpr hover)
  | left _ hleft =>
      rw [hsame, ← hn] at hleft ⊢
      exact .left hline hleft
  | block _ hstart' hinside hrules hrest =>
      rw [hsame] at hinside hrules
      rw [← hn] at hstart hinside hrules
      exact .block hline hstart hinside hrules hrest

variable (hrules : ∀ line, Ready ctx lines line stop → line < (rules ctx lines line stop).2)
include hrules

lemma run_sequence {fuel : Nat} (hfuel : stop - line ≤ fuel) :
    Run rules ctx lines stop line (sequence rules ctx lines stop fuel line).1
      (sequence rules ctx lines stop fuel line).2 := by
  induction fuel generalizing line with
  | zero => exact .ended (by omega)
  | succ fuel ih =>
      rw [sequence_succ]
      split_ifs with hover hleft
      · exact .ended hover
      · exact .left (Nat.lt_of_not_le hover) hleft
      · rw [not_or, not_le, not_lt] at hleft
        have hlt := hrules _ (ready_start hbounded hleft.1 hleft.2)
        have hle : line ≤ ctx.start lines line := le_start
        have hnext : (rules ctx lines (ctx.start lines line) stop).2 ≤ afterBlock lines stop _ :=
          le_afterBlock _
        exact .block (Nat.lt_of_not_le hover) hleft.1 hleft.2 rfl (ih (by omega))

/-- With enough fuel a sequence is the run from its line on. -/
lemma sequence_eq_of_run {fuel : Nat} (hfuel : stop - line ≤ fuel)
    (h : Run rules ctx lines stop line es past) :
    sequence rules ctx lines stop fuel line = (es, past) := by
  induction h generalizing fuel with
  | ended hover =>
      cases fuel with
      | zero => rfl
      | succ fuel => rw [sequence_succ, if_pos hover]
  | left hline hleft =>
      obtain ⟨fuel, rfl⟩ : ∃ n, fuel = n + 1 := ⟨fuel - 1, by omega⟩
      rw [sequence_succ, if_neg (Nat.not_le.mpr hline), if_pos hleft]
  | @block line next past es fs hline hstart hinside hfound hrest ih =>
      obtain ⟨fuel, rfl⟩ : ∃ n, fuel = n + 1 := ⟨fuel - 1, by omega⟩
      have hlt := hrules _ (ready_start hbounded hstart hinside)
      have hle : line ≤ ctx.start lines line := le_start
      have hnext : next ≤ afterBlock lines stop next := le_afterBlock next
      rw [hfound] at hlt
      dsimp only at hlt
      have hmore := ih (show stop - afterBlock lines stop next ≤ fuel by omega)
      have hgoes : ¬ (stop ≤ ctx.start lines line ∨
          (lines.at (ctx.start lines line)).indent < ctx.indent) := by omega
      rw [sequence_succ, if_neg (Nat.not_le.mpr hline), if_neg hgoes, hfound]
      simp only [hmore]

omit hrules in
/-- A run of blocks with a property has it. -/
lemma Run.law {P : Nat → Nat → List Event → Prop} (hP : RunLaw P)
    (hrules : ∀ line, Ready ctx lines line stop → Gets P line (rules ctx lines line stop))
    (h : Run rules ctx lines stop line es past) : P line past es := by
  induction h with
  | ended => exact hP.nil le_rfl
  | left => exact hP.nil le_start
  | @block line next past es fs hline hstart hinside hfound hrest ih =>
      have hgets := (hrules _ (ready_start hbounded hstart hinside)).2
      rw [hfound] at hgets
      exact hP.append (hP.mono le_start hgets (le_afterBlock next)) ih

end Run

end Galley.Markdown
