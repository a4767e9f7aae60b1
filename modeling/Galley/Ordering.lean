/-!
Sorting of short lists.

* `orderBy`: the members in the order of `le`, those of equal rank as they were listed;
* `orderDistinct`: the members in a strict order, each once.
-/

namespace Galley

section Ordering

variable {α : Type} (le : α → α → Bool)

/-- Puts a member in front of the first one that it may precede. -/
def insertOrdered (x : α) : List α → List α
  | [] => [x]
  | y :: ys => if le x y then x :: y :: ys else y :: insertOrdered x ys

/-- The members in the order of `le`; of members that may precede each other the one listed first
comes first. -/
def orderBy : List α → List α
  | [] => []
  | x :: xs => insertOrdered le x (orderBy xs)

end Ordering

section Distinct

variable {α : Type} [BEq α] (lt : α → α → Bool)

/-- Puts a member in front of the first one that it precedes, unless it is there. -/
def insertDistinct (x : α) : List α → List α
  | [] => [x]
  | y :: ys =>
      if x == y then y :: ys
      else if lt x y then x :: y :: ys
      else y :: insertDistinct x ys

/-- The members in the order of `lt`, each once. -/
def orderDistinct (xs : List α) : List α := xs.foldr (insertDistinct lt) []

end Distinct

end Galley
