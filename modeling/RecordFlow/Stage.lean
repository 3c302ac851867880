import RecordFlow.Buckets
import RecordFlow.Feed
import RecordFlow.Node
import RecordFlow.Reducer
import RecordFlow.Sorting

/-!
# Stages

A stage transforms a base sequence: the records of one innermost group. Applied to nested data, a
stage acts on each base sequence by itself and leaves the nesting above it as it is
(`Node.mapBase`).
-/

namespace RecordFlow

/-- A transformation of a base sequence. -/
abbrev Stage := Feed Node → Feed Node

namespace Stage

/-- Transform every record. -/
def map (f : Value → Value) : Stage := Feed.map (Node.mapRecord f)

/-- Keep the records that pass a test, and every group. -/
def filter (p : Value → Bool) : Stage :=
  Feed.filter fun node =>
    match node with
    | .record v => p v
    | .group _ => true

/-- Whether a record comes strictly before another. Groups come before nothing. -/
def comesBefore (sorting : Sorting) : Node → Node → Bool
  | .record a, .record b => sorting.order a b == .lt
  | _, _ => false

/-- Sort the sequence, keeping the order of equal records. The sorting must compare the records by a
total preorder. -/
def sort (sorting : Sorting) : Stage := Feed.gather (insertionSort (comesBefore sorting))

/-- The key of a node under a key function of records. Groups share the key null. -/
def nodeKey (keyOf : Value → Value) : Node → Key
  | .record v => .ofValue (keyOf v)
  | .group _ => .null

/-- Gather the sequence into groups of one key each. -/
def group (keyOf : Value → Value) : Stage :=
  Feed.gather fun nodes => (Buckets.ofList (nodeKey keyOf) false nodes).toList.map .group

/-- Keep the first record of each key. -/
def distinct (keyOf : Value → Value) : Stage :=
  Feed.gather fun nodes => (Buckets.ofList (nodeKey keyOf) true nodes).toList.filterMap List.head?

/-- Fold the records of the sequence into one record. -/
def reduce (r : Reducer) : Stage :=
  Feed.gather fun nodes => [.record (r.apply (nodes.filterMap Node.record?))]

/-- Replace every group by its items, and transform the records. -/
def flatten (f : Value → Value) : Stage :=
  Feed.flatMap fun node => node.items.map (Node.mapRecord f)

/-- What a stage makes of a list of nodes. -/
def onList (s : Stage) (nodes : List Node) : List Node := (s (.ofList nodes)).items

/-- The first that a stage makes of one node, or null. -/
def onSingle (s : Stage) (node : Node) : Node := (s.onList [node]).head?.getD (.record .null)

end Stage

namespace Node

/-- Apply a stage to the base sequences of data nested to a level. At level zero the data are one
item, and the first that the stage makes of it takes its place. A record where a group is expected
stays as it is. -/
def mapBase (s : Stage) : Nat → Node → Node
  | 0, node => s.onSingle node
  | _ + 1, .record v => .record v
  | 1, .group items => .group (s.onList items)
  | level + 2, .group items => .group (items.map (mapBase s (level + 1)))

end Node

end RecordFlow
