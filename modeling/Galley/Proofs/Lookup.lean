import Galley.Proofs.Magnitudes
import Galley.SourceMap.Basic
import Mathlib.Data.EReal.Basic
import Mathlib.Data.Prod.Lex
import Mathlib.Order.Monotone.Odd
import Mathlib.Tactic

/-!
Looking up places in the typeset document. Anchors need not be typeset in the order of the document,
and some are not typeset at all, so the search passes all of them and keeps the best one so far.

* `Binary64.value`, `le_iff_value_le`: the order of floating point numbers is that of the numbers
  they stand for;
* `PagePlace.rank`, `upTo_iff_rank_le`: places are in lexicographic order;
* `IsNearest`: an anchor is the last one of the greatest rank up to a bound;
* `IsBest.step`, `IsBest.run`: what the search holds is the nearest of the anchors it has passed;
* `nearestToRendered_greatest`: the whole account.
-/

namespace Galley

/-! ### The order of numbers -/

/-- The magnitudes of both signs, counted from zero in both directions. -/
def signedMagnitude (n : Int) : ℚ := n.sign * magnitude n.natAbs

lemma signedMagnitude_strictMono : StrictMono signedMagnitude := by
  refine strictMono_of_odd_strictMonoOn_nonneg (fun n => ?_) fun m hm n hn h => ?_
  · rw [signedMagnitude, signedMagnitude, Int.sign_neg, Int.natAbs_neg, Int.cast_neg, neg_mul]
  · have hm : 0 ≤ m := hm
    have hpos : 0 < n := hm.trans_lt h
    rw [signedMagnitude, signedMagnitude, Int.sign_eq_one_of_pos hpos, Int.cast_one, one_mul]
    rcases hm.eq_or_lt with rfl | hm
    · simpa using magnitude_pos (Int.natAbs_pos.mpr hpos.ne').ne'
    · rw [Int.sign_eq_one_of_pos hm, Int.cast_one, one_mul]
      exact magnitude_strictMono (by omega)

namespace Binary64

/-- The number that a floating point number stands for. Not-a-number stands for none, and has no
place in the order either; it is given zero here. -/
noncomputable def value : Binary64 → EReal
  | nan => 0
  | infinity negative => if negative then ⊥ else ⊤
  | finite negative place => ((if negative then -magnitude place else magnitude place : ℚ) : ℝ)

lemma value_finite (negative : Bool) (place : Fin magnitudeCount) :
    (finite negative place).value =
      ((signedMagnitude (if negative then -place.val else place.val) : ℚ) : ℝ) := by
  have hsigned : signedMagnitude place.val = magnitude place := by
    rcases Nat.eq_zero_or_pos place.val with hzero | hpos
    · simp [signedMagnitude, hzero, magnitude_zero]
    · rw [signedMagnitude, Int.sign_eq_one_of_pos (by omega), Int.cast_one, one_mul,
        Int.natAbs_natCast]
  cases negative with
  | false => simp [value, hsigned]
  | true =>
      have hneg : signedMagnitude (-(place.val : Int)) = -signedMagnitude place.val := by
        simp [signedMagnitude]
      simp [value, hsigned, hneg]

/-- Numbers are compared by what they stand for. -/
lemma le_iff_value_le {x y : Binary64} (hx : x ≠ nan) (hy : y ≠ nan) :
    x.le y = true ↔ x.value ≤ y.value := by
  cases x with
  | nan => exact absurd rfl hx
  | infinity s =>
      cases y with
      | nan => exact absurd rfl hy
      | infinity t =>
          cases s <;> cases t <;> simp [le, order?, value]
          decide
      | finite t q =>
          have hq := q.isLt
          rw [value_finite]
          cases s <;> cases t <;> simp [le, order?, value]
          omega
  | finite s p =>
      have hp := p.isLt
      rw [value_finite]
      cases y with
      | nan => exact absurd rfl hy
      | infinity t =>
          cases s <;> cases t <;> simp [le, order?, value]
          omega
      | finite t q =>
          rw [value_finite, EReal.coe_le_coe_iff, Rat.cast_le, signedMagnitude_strictMono.le_iff_le]
          simp [le, order?]

end Binary64

/-! ### Ranks -/

/-- Ranks of places, in lexicographic order: by pages, and on a page by how far down they are. -/
abbrev Rank := Lex (Int × EReal)

/-- The rank of a place. -/
noncomputable def PagePlace.rank (p : PagePlace) : Rank := toLex (p.page, p.y.value)

/-- Places are compared by their ranks. -/
lemma upTo_iff_rank_le {p q : PagePlace} (hp : p.y ≠ .nan) (hq : q.y ≠ .nan) :
    p.upTo q = true ↔ p.rank ≤ q.rank := by
  rw [PagePlace.rank, PagePlace.rank, Prod.Lex.toLex_le_toLex, PagePlace.upTo]
  split_ifs with hpage
  · simp [hpage, Binary64.le_iff_value_le hp hq]
  · simp [hpage]

/-- The rank of an anchor's position, if it has one. -/
noncomputable def Anchor.rank? (a : Anchor) : Option Rank := a.rendered.map fun p => p.place.rank

/-- The ranks of anchors up to a bound. -/
def ranksUpTo (anchors : List Anchor) (bound : Rank) : Set Rank :=
  {r | r ≤ bound ∧ ∃ a ∈ anchors, a.rank? = some r}

lemma ranksUpTo_eq_empty_iff {anchors : List Anchor} {bound : Rank} :
    ranksUpTo anchors bound = ∅ ↔ ∀ a ∈ anchors, ∀ r ∈ a.rank?, ¬r ≤ bound := by
  rw [Set.eq_empty_iff_forall_notMem]
  exact ⟨fun h a ha r hr hle => h r ⟨hle, a, ha, hr⟩, fun h r ⟨hle, a, ha, hr⟩ => h a ha r hr hle⟩

lemma ranksUpTo_mono {anchors : List Anchor} {bound bound' : Rank} (h : bound ≤ bound') :
    ranksUpTo anchors bound ⊆ ranksUpTo anchors bound' :=
  fun _ hr => ⟨hr.1.trans h, hr.2⟩

lemma mem_ranksUpTo_append_singleton {passed : List Anchor} {bound r : Rank} {a : Anchor} :
    r ∈ ranksUpTo (passed ++ [a]) bound ↔
      r ∈ ranksUpTo passed bound ∨ r ≤ bound ∧ a.rank? = some r := by
  simp only [ranksUpTo, Set.mem_ofPred_eq, List.mem_append, List.mem_singleton, or_and_right,
    exists_or, exists_eq_left, and_or_left]

/-- Among anchors, one is the last of those whose rank is the greatest up to a bound. -/
structure IsNearest (anchors : List Anchor) (bound : Rank) (a : Anchor) (r : Rank) : Prop where
  rank : a.rank? = some r
  greatest : IsGreatest (ranksUpTo anchors bound) r
  last : ∃ before after, anchors = before ++ a :: after ∧ ∀ b ∈ after, b.rank? ≠ some r

/-- Ranks and bound tell the nearest anchor. -/
lemma IsNearest.unique {anchors : List Anchor} {bound r s : Rank} {a b : Anchor}
    (ha : IsNearest anchors bound a r) (hb : IsNearest anchors bound b s) : a = b := by
  obtain rfl := ha.greatest.unique hb.greatest
  obtain ⟨before, after, rfl, hafter⟩ := ha.last
  obtain ⟨before', after', hsplit, hafter'⟩ := hb.last
  rcases List.append_eq_append_iff.mp hsplit with ⟨as, -, hrest⟩ | ⟨as, -, hrest⟩
  · cases as with
    | nil => exact (List.cons.inj hrest).1
    | cons c as =>
        have hmem : b ∈ after := (List.cons.inj hrest).2 ▸ by simp
        exact absurd hb.rank (hafter b hmem)
  · cases as with
    | nil => exact (List.cons.inj hrest).1.symm
    | cons c as =>
        have hmem : a ∈ after' := (List.cons.inj hrest).2 ▸ by simp
        exact absurd ha.rank (hafter' a hmem)

/-! ### The search -/

section Search

variable {passed : List Anchor} {a b : Anchor} {r : Rank}

/-- An anchor up to the bound is the nearest one so far if none is behind it. -/
lemma IsNearest.take {bound : Rank} (hr : a.rank? = some r) (hle : r ≤ bound)
    (h : r ∈ upperBounds (ranksUpTo passed bound)) : IsNearest (passed ++ [a]) bound a r := by
  refine ⟨hr, ⟨mem_ranksUpTo_append_singleton.mpr (.inr ⟨hle, hr⟩), fun s hs => ?_⟩,
    ⟨passed, [], rfl, List.forall_mem_nil _⟩⟩
  rcases mem_ranksUpTo_append_singleton.mp hs with hs | ⟨-, hs⟩
  · exact h hs
  · exact (Option.some.inj (hr.symm.trans hs)).ge

/-- An anchor in front of the nearest one so far, or behind the bound, leaves it the nearest one. -/
lemma IsNearest.skip {bound : Rank} (h : IsNearest passed bound b r)
    (ha : ∀ s ∈ a.rank?, s ≤ bound → s < r) : IsNearest (passed ++ [a]) bound b r := by
  refine ⟨h.rank, ⟨mem_ranksUpTo_append_singleton.mpr (.inl h.greatest.1), fun s hs => ?_⟩, ?_⟩
  · rcases mem_ranksUpTo_append_singleton.mp hs with hs | ⟨hle, hs⟩
    · exact h.greatest.2 hs
    · exact (ha s hs hle).le
  · obtain ⟨before, after, rfl, hafter⟩ := h.last
    refine ⟨before, after ++ [a], by simp, fun c hc => ?_⟩
    rcases List.mem_append.mp hc with hc | hc
    · exact hafter c hc
    · obtain rfl := List.mem_singleton.mp hc
      exact fun hr => lt_irrefl r (ha r hr h.greatest.1.1)

variable {bound : PagePlace} {best : Option (Anchor × PagePlace)}

/-- What the search holds behind some of the anchors: nothing if none of them is up to the bound, or
else the nearest one with its place. -/
def IsBest (passed : List Anchor) (bound : PagePlace) : Option (Anchor × PagePlace) → Prop
  | none => ranksUpTo passed bound.rank = ∅
  | some (a, place) => place.y ≠ .nan ∧ IsNearest passed bound.rank a place.rank

/-- An anchor that is behind the bound, or in front of one that is not, is passed over. -/
lemma IsBest.skip (h : IsBest passed bound best)
    (ha : ∀ r ∈ a.rank?, r ≤ bound.rank → ∃ s ∈ ranksUpTo passed bound.rank, r < s) :
    IsBest (passed ++ [a]) bound best := by
  cases best with
  | none =>
      have hempty : ranksUpTo passed bound.rank = ∅ := h
      refine Set.eq_empty_of_forall_notMem fun r hr => ?_
      rcases mem_ranksUpTo_append_singleton.mp hr with hr | ⟨hle, hr⟩
      · exact Set.notMem_empty r (hempty ▸ hr)
      · obtain ⟨s, hs, -⟩ := ha r hr hle
        exact Set.notMem_empty s (hempty ▸ hs)
  | some held =>
      refine ⟨h.1, h.2.skip fun r hr hle => ?_⟩
      obtain ⟨s, hs, hlt⟩ := ha r hr hle
      exact hlt.trans_le (h.2.greatest.2 hs)

/-- What the search holds behind one more anchor. -/
def nearestStep (bound : PagePlace) (best : Option (Anchor × PagePlace)) (a : Anchor) :
    Option (Anchor × PagePlace) :=
  match a.rendered with
  | none => best
  | some p => if p.place.upTo bound then SourceMap.betterOf best a p.place else best

lemma nearestAux_cons (bound : PagePlace) (best : Option (Anchor × PagePlace)) (a : Anchor)
    (as : List Anchor) : SourceMap.nearestAux bound best (a :: as) =
      SourceMap.nearestAux bound (nearestStep bound best a) as := by
  rw [SourceMap.nearestAux, nearestStep]
  cases a.rendered <;> rfl

/-- One more anchor is passed: the search still holds the nearest one. -/
lemma IsBest.step (hbound : bound.y ≠ .nan) (ha : ∀ p ∈ a.rendered, p.y ≠ .nan)
    (h : IsBest passed bound best) : IsBest (passed ++ [a]) bound (nearestStep bound best a) := by
  rw [nearestStep]
  cases hrendered : a.rendered with
  | none => exact h.skip (by simp [Anchor.rank?, hrendered])
  | some p =>
      have hy : p.place.y ≠ .nan := ha p hrendered
      have hrank : a.rank? = some p.place.rank := by rw [Anchor.rank?, hrendered, Option.map_some]
      dsimp only
      split_ifs with hupTo
      · have hle := (upTo_iff_rank_le hy hbound).mp hupTo
        cases best with
        | none =>
            have hempty : ranksUpTo passed bound.rank = ∅ := h
            exact ⟨hy, IsNearest.take hrank hle (by simp [hempty])⟩
        | some held =>
            obtain ⟨b, place⟩ := held
            rw [SourceMap.betterOf]
            split_ifs with hbehind
            · have hplace := (upTo_iff_rank_le h.1 hy).mp hbehind
              exact ⟨hy, IsNearest.take hrank hle fun s hs => (h.2.greatest.2 hs).trans hplace⟩
            · rw [upTo_iff_rank_le h.1 hy, not_le] at hbehind
              refine h.skip fun r hr _ => ⟨place.rank, h.2.greatest.1, ?_⟩
              rwa [← Option.some.inj (hrank.symm.trans hr)]
      · rw [upTo_iff_rank_le hy hbound] at hupTo
        refine h.skip fun r hr hle => absurd hle ?_
        rwa [← Option.some.inj (hrank.symm.trans hr)]

/-- All anchors are passed: the search holds the nearest one. -/
lemma IsBest.run (hbound : bound.y ≠ .nan) (as : List Anchor)
    (has : ∀ a ∈ as, ∀ p ∈ a.rendered, p.y ≠ .nan) (h : IsBest passed bound best) :
    IsBest (passed ++ as) bound (SourceMap.nearestAux bound best as) := by
  induction as generalizing passed best with
  | nil => rwa [List.append_nil]
  | cons a as ih =>
      obtain ⟨ha, has⟩ := List.forall_mem_cons.mp has
      rw [nearestAux_cons, List.append_cons]
      exact ih has (h.step hbound ha)

end Search

/-! ### The whole account -/

section Found

variable {m : SourceMap} {bound : PagePlace} (hm : ∀ a ∈ m.anchors, ∀ p ∈ a.rendered, p.y ≠ .nan)
  (hbound : bound.y ≠ .nan)

include hm hbound

/-- Looking up a place finds nothing if no anchor is up to it, or else the nearest one. -/
lemma nearestToRendered_cases :
    m.nearestToRendered? bound = none ∧ ranksUpTo m.anchors bound.rank = ∅ ∨
      ∃ a r, m.nearestToRendered? bound = some a ∧ IsNearest m.anchors bound.rank a r := by
  have hstart : IsBest [] bound none := by simp [IsBest, ranksUpTo]
  have hbest := hstart.run hbound m.anchors hm
  rw [List.nil_append] at hbest
  rw [SourceMap.nearestToRendered?]
  cases hheld : SourceMap.nearestAux bound none m.anchors with
  | none => exact .inl ⟨rfl, by rwa [hheld] at hbest⟩
  | some held =>
      rw [hheld] at hbest
      exact .inr ⟨held.1, held.2.rank, rfl, hbest.2⟩

lemma nearestToRendered_eq_none_iff :
    m.nearestToRendered? bound = none ↔ ranksUpTo m.anchors bound.rank = ∅ := by
  rcases nearestToRendered_cases hm hbound with ⟨hnone, hempty⟩ | ⟨a, r, hsome, ha⟩
  · exact iff_of_true hnone hempty
  · exact iff_of_false (by simp [hsome]) (Set.nonempty_of_mem ha.greatest.1).ne_empty

lemma nearestToRendered_eq_some_iff {a : Anchor} :
    m.nearestToRendered? bound = some a ↔ ∃ r, IsNearest m.anchors bound.rank a r := by
  rcases nearestToRendered_cases hm hbound with ⟨hnone, hempty⟩ | ⟨b, s, hsome, hb⟩
  · refine iff_of_false (by simp [hnone]) fun ⟨r, ha⟩ => ?_
    exact Set.notMem_empty r (hempty ▸ ha.greatest.1)
  · rw [hsome, Option.some.injEq]
    exact ⟨fun h => ⟨s, h ▸ hb⟩, fun ⟨r, ha⟩ => hb.unique ha⟩

end Found

/-- Looking up a place finds nothing exactly if no anchor has a position up to it, and otherwise the
last anchor of those whose position is the greatest one up to it, in whatever order the anchors are
typeset. So the anchor that is found for a later place has no earlier position. -/
theorem nearestToRendered_greatest (m : SourceMap)
    (hm : ∀ a ∈ m.anchors, ∀ p ∈ a.rendered, p.y ≠ .nan) :
    (∀ bound : PagePlace, bound.y ≠ .nan →
      (m.nearestToRendered? bound = none ↔ ∀ a ∈ m.anchors, ∀ r ∈ a.rank?, ¬r ≤ bound.rank) ∧
      ∀ a, m.nearestToRendered? bound = some a ↔ ∃ r, IsNearest m.anchors bound.rank a r) ∧
    ∀ bound bound' : PagePlace, bound.y ≠ .nan → bound'.y ≠ .nan → bound.rank ≤ bound'.rank →
      ∀ a, m.nearestToRendered? bound = some a →
        ∃ b, m.nearestToRendered? bound' = some b ∧ ∃ r ∈ a.rank?, ∃ s ∈ b.rank?, r ≤ s := by
  refine ⟨fun bound hbound => ⟨?_, fun a => nearestToRendered_eq_some_iff hm hbound⟩,
    fun bound bound' hbound hbound' hle a ha => ?_⟩
  · rw [nearestToRendered_eq_none_iff hm hbound, ranksUpTo_eq_empty_iff]
  · obtain ⟨r, ha⟩ := (nearestToRendered_eq_some_iff hm hbound).mp ha
    -- the rank that was the greatest one is still up to the later bound
    have hmem := ranksUpTo_mono hle ha.greatest.1
    rcases nearestToRendered_cases hm hbound' with ⟨-, hempty⟩ | ⟨b, s, hsome, hb⟩
    · exact absurd (hempty ▸ hmem) (Set.notMem_empty r)
    · exact ⟨b, hsome, r, ha.rank, s, hb.rank, hb.greatest.2 hmem⟩

/-- Anchors on two pages out of order, one of them not typeset, and two at one height, which one of
them has as a negative zero. -/
theorem nearestToRendered_greatest_tie :
    let anchor (name : String) (rendered : Option PagePosition) : Anchor :=
      ⟨CodeText.ofText name.toList, ⟨0, 0, 0⟩, rendered⟩
    let ten : Binary64 := .ofScaled false 10 0
    let first := anchor "tf-0-1" (some ⟨2, .zero, ten⟩)
    let last := anchor "tf-9-4" (some ⟨1, .zero, Binary64.zero.neg⟩)
    let m : SourceMap := ⟨[first, anchor "tf-3-2" (some ⟨1, .zero, .zero⟩), anchor "tf-6-3" none,
      last, anchor "tf-12-5" (some ⟨1, .zero, .infinity false⟩)]⟩
    (∀ a ∈ m.anchors, ∀ p ∈ a.rendered, p.y ≠ .nan) ∧
      (∃ r, IsNearest m.anchors (PagePlace.rank ⟨1, ten⟩) last r) ∧
      (∀ a ∈ m.anchors, ∀ r ∈ a.rank?, ¬r ≤ PagePlace.rank ⟨0, .infinity false⟩) ∧
      m.nearestToRendered? ⟨2, ten⟩ = some first ∧
      ∃ r ∈ last.rank?, ∃ s ∈ first.rank?, r ≤ s := by
  intro anchor ten first last m
  have hm : ∀ a ∈ m.anchors, ∀ p ∈ a.rendered, p.y ≠ .nan := by decide +kernel
  have hten : ten ≠ .nan := by decide +kernel
  have hlast : m.nearestToRendered? ⟨1, ten⟩ = some last := by decide +kernel
  have hfirst : m.nearestToRendered? ⟨2, ten⟩ = some first := by decide +kernel
  have hle : PagePlace.rank ⟨1, ten⟩ ≤ PagePlace.rank ⟨2, ten⟩ :=
    (upTo_iff_rank_le hten hten).mp (by decide +kernel)
  obtain ⟨hnearest, hmono⟩ := nearestToRendered_greatest m hm
  obtain ⟨b, hb, hranks⟩ := hmono ⟨1, ten⟩ ⟨2, ten⟩ hten hten hle last hlast
  obtain rfl := Option.some.inj (hfirst.symm.trans hb)
  exact ⟨hm, ((hnearest ⟨1, ten⟩ hten).2 last).mp hlast,
    (hnearest ⟨0, .infinity false⟩ (by decide)).1.mp (by decide +kernel), hfirst, hranks⟩

end Galley
