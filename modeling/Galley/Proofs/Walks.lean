import Galley.SourceMap.Query
import Mathlib.Tactic

/-!
The walk through a value, and the search for the first result on it.

* `Json.preorder`: a value and then the values inside it, by recursion on the value;
* `Json.walk_eq`: the walk with a stack visits the values in this order;
* `Json.members_induction`, `Json.mem_preorder_trans`: induction on values, and values inside values
  inside a value;
* `firstResult?_eq_none`, `firstResult?_eq`: a search gives nothing if every value gives nothing,
  and else what comes of the first value that gives anything.
-/

namespace Galley

/-! ### Preorder -/

namespace Json

mutual

/-- A value, and then the values inside it. -/
def preorder : Json → List Json
  | .array items => .array items :: preorderItems items
  | .object fields => .object fields :: preorderFields fields
  | value => [value]

/-- The items of an array in order, each one followed by the values inside it. -/
def preorderItems : List Json → List Json
  | [] => []
  | item :: items => preorder item ++ preorderItems items

/-- The values of the fields of an object in order, each one followed by the values inside it. -/
def preorderFields : List (CodeText × Json) → List Json
  | [] => []
  | (_, value) :: fields => preorder value ++ preorderFields fields

end

lemma preorderItems_eq (items : List Json) : preorderItems items = items.flatMap preorder := by
  induction items with
  | nil => rfl
  | cons item items ih => rw [preorderItems, ih, List.flatMap_cons]

lemma preorderFields_eq (fields : List (CodeText × Json)) :
    preorderFields fields = (fields.map Prod.snd).flatMap preorder := by
  induction fields with
  | nil => rfl
  | cons field fields ih => rw [preorderFields, ih, List.map_cons, List.flatMap_cons]

/-- The preorder of a value goes on with those of the values directly inside it. -/
lemma preorder_eq (value : Json) : value.preorder = value :: value.members.flatMap preorder := by
  cases value with
  | array items => rw [preorder, preorderItems_eq, members]
  | object fields => rw [preorder, preorderFields_eq, members]
  | _ => rfl

/-- The values on a stack are visited one after another, each one with the values inside it. -/
lemma walkFrom_eq (stack : List Json) : walkFrom stack = stack.flatMap preorder := by
  induction stack using walkFrom.induct with
  | case1 => rw [walkFrom, List.flatMap_nil]
  | case2 value stack ih =>
      calc walkFrom (value :: stack)
          = value :: (value.members ++ stack).flatMap preorder := by rw [walkFrom, ih]
        _ = (value :: value.members.flatMap preorder) ++ stack.flatMap preorder := by
            rw [List.flatMap_append, List.cons_append]
        _ = (value :: stack).flatMap preorder := by rw [← preorder_eq, List.flatMap_cons]

/-- The walk visits a value and then the values inside it. -/
theorem walk_eq (value : Json) : value.walk = value.preorder := by
  rw [walk, walkFrom_eq, List.flatMap_cons, List.flatMap_nil, List.append_nil]

lemma mem_preorder {node value : Json} :
    node ∈ value.preorder ↔ node = value ∨ ∃ member ∈ value.members, node ∈ member.preorder := by
  rw [preorder_eq, List.mem_cons, List.mem_flatMap]

lemma size_lt_of_mem_members {member value : Json} (h : member ∈ value.members) :
    member.size < value.size := by
  obtain ⟨front, behind, hsplit⟩ := List.append_of_mem h
  rw [size_eq value, hsplit, sizeItems_append, sizeItems]
  omega

/-- Induction on values: what follows for a value from the values directly inside it holds of every
value. -/
lemma members_induction {P : Json → Prop}
    (h : ∀ value, (∀ member ∈ value.members, P member) → P value) (value : Json) : P value := by
  induction hsize : value.size using Nat.strong_induction_on generalizing value with
  | _ size ih =>
      refine h value fun member hmember => ih member.size ?_ member rfl
      rw [← hsize]
      exact size_lt_of_mem_members hmember

/-- What is inside a value that is inside another one is inside that one. -/
lemma mem_preorder_trans {tree value node : Json} (hvalue : value ∈ tree.preorder)
    (hnode : node ∈ value.preorder) : node ∈ tree.preorder := by
  induction tree using members_induction with
  | h tree ih =>
      rcases mem_preorder.mp hvalue with rfl | ⟨member, hmember, hvalue⟩
      · exact hnode
      · exact mem_preorder.mpr (Or.inr ⟨member, hmember, ih member hmember hvalue⟩)

end Json

/-! ### First results -/

variable {β : Type} {probe : Json → Except NumberFault (Option β)}

lemma firstResult?_cons_of_eq {value : Json} {outcome : Except NumberFault (Option β)}
    (hvalue : probe value = outcome) (houtcome : outcome ≠ .ok none) (values : List Json) :
    firstResult? probe (value :: values) = outcome := by
  subst hvalue
  rw [firstResult?]
  cases hprobe : probe value with
  | error fault => rfl
  | ok found =>
      cases found with
      | none => exact absurd hprobe houtcome
      | some result => rfl

lemma firstResult?_cons_of_none {value : Json} (hvalue : probe value = .ok none)
    (values : List Json) : firstResult? probe (value :: values) = firstResult? probe values := by
  rw [firstResult?, hvalue]
  rfl

/-- A search gives nothing if and only if every value gives nothing. -/
lemma firstResult?_eq_none {values : List Json} :
    firstResult? probe values = .ok none ↔ ∀ value ∈ values, probe value = .ok none := by
  induction values with
  | nil => simp [firstResult?]
  | cons value values ih =>
      rw [List.forall_mem_cons, ← ih]
      constructor
      · intro h
        have hvalue : probe value = .ok none := by
          by_contra hne
          exact hne ((firstResult?_cons_of_eq rfl hne values).symm.trans h)
        exact ⟨hvalue, firstResult?_cons_of_none hvalue values ▸ h⟩
      · rintro ⟨hvalue, h⟩
        rw [firstResult?_cons_of_none hvalue, h]

/-- A search has another outcome if and only if a value has it behind values that give nothing. -/
lemma firstResult?_eq {values : List Json} {outcome : Except NumberFault (Option β)}
    (houtcome : outcome ≠ .ok none) :
    firstResult? probe values = outcome ↔
      ∃ front value behind, values = front ++ value :: behind ∧ probe value = outcome ∧
        ∀ other ∈ front, probe other = .ok none := by
  constructor
  · intro h
    induction values with
    | nil => exact absurd h.symm houtcome
    | cons value values ih =>
        by_cases hvalue : probe value = .ok none
        · rw [firstResult?_cons_of_none hvalue] at h
          obtain ⟨front, node, behind, rfl, hnode, hfront⟩ := ih h
          exact ⟨value :: front, node, behind, rfl, hnode,
            List.forall_mem_cons.mpr ⟨hvalue, hfront⟩⟩
        · rw [firstResult?_cons_of_eq rfl hvalue] at h
          exact ⟨[], value, values, rfl, h, by simp⟩
  · rintro ⟨front, value, behind, rfl, hvalue, hfront⟩
    induction front with
    | nil => exact firstResult?_cons_of_eq hvalue houtcome behind
    | cons other front ih =>
        obtain ⟨hother, hfront⟩ := List.forall_mem_cons.mp hfront
        rw [List.cons_append, firstResult?_cons_of_none hother]
        exact ih hfront

end Galley
