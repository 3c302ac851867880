import RecordFlow.Value.Order
import RecordFlow.Value.Path

/-!
# Sorting

Records are ordered by a comparator or by a key of each. Sorting inserts one item after another,
from the right, into those before it: an item passes the items it comes strictly before, so items
that compare equal keep their order.

Sorting asks that comparing is a total preorder of the items. Where it is none, nothing is promised:
insertion leaves one of many orders then, and a sort may as well break off. So what is said of
sorted data, and of the success of calls after a sort, is said of orders that keep to it.
-/

namespace RecordFlow

/-! ## Insertion sort -/

/-- Insert an item among sorted items that stand in reverse, passing those it comes before. -/
def insertReversed {α : Type} (before : α → α → Bool) (x : α) : List α → List α
  | [] => [x]
  | y :: ys => if before x y then y :: insertReversed before x ys else x :: y :: ys

/-- Sort items by insertion, keeping the order of items neither of which comes before the other. -/
def insertionSort {α : Type} (before : α → α → Bool) (xs : List α) : List α :=
  (xs.foldl (fun sorted x => insertReversed before x sorted) []).reverse

/-! ## Orders of records -/

/-- How records are ordered: by comparing two of them, or by comparing a key of each. -/
inductive Sorting where
  | comparator (compare : Value → Value → Ordering)
  | key (keyOf : Value → Value)

namespace Sorting

/-- By the value at a path, ascending. -/
def field (path : String) : Sorting := .key fun record => record.atPath path

/-- How many records the ordering function takes. -/
def parameterCount : Sorting → Nat
  | .comparator _ => 2
  | .key _ => 1

/-- The order of two records. -/
def order : Sorting → Value → Value → Ordering
  | .comparator compare, a, b => compare a b
  | .key keyOf, a, b => (keyOf a).order (keyOf b)

/-- The description of an order. -/
def describe : Sorting → String
  | .comparator _ => "SortBy::Comparator(..)"
  | .key _ => "SortBy::Key(..)"

end Sorting

end RecordFlow
