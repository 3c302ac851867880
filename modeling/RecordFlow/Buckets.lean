import RecordFlow.Key

/-!
# Buckets

Items are gathered into buckets by a key. Buckets stand in the order in which their keys were
first seen, and each keeps its items in the order of insertion; a distinct index keeps only the
first item of each key.
-/

namespace RecordFlow

/-- Items gathered by a key of theirs. -/
structure Buckets (α : Type) where
  keyOf : α → Key
  distinct : Bool
  entries : List (Key × List α)

namespace Buckets

variable {α β π : Type}

/-- No buckets. -/
def empty (keyOf : α → Key) (distinct : Bool) : Buckets α := ⟨keyOf, distinct, []⟩

/-! ## Insertion -/

/-- Put an item into the bucket of a key, or into a new bucket after the others. -/
def addEntry (distinct : Bool) (key : Key) (x : α) : List (Key × List α) → List (Key × List α)
  | [] => [(key, [x])]
  | (k, xs) :: rest =>
    if k = key then (k, if distinct then xs else xs ++ [x]) :: rest
    else (k, xs) :: addEntry distinct key x rest

/-- Whether a key has a bucket. -/
def contains (b : Buckets α) (key : Key) : Bool := b.entries.any (·.1 == key)

/-- Insert an item. -/
def insert (b : Buckets α) (x : α) : Buckets α :=
  { b with entries := addEntry b.distinct (b.keyOf x) x b.entries }

/-- Insert an item: whether its key was new, and the buckets then. -/
def add (b : Buckets α) (x : α) : Bool × Buckets α := (!b.contains (b.keyOf x), b.insert x)

/-- Insert items in order. -/
def insertAll (b : Buckets α) (xs : List α) : Buckets α := xs.foldl insert b

/-- The buckets of items in order. -/
def ofList (keyOf : α → Key) (distinct : Bool) (xs : List α) : Buckets α :=
  (empty keyOf distinct).insertAll xs

/-! ## Queries -/

/-- The buckets in order. -/
def toList (b : Buckets α) : List (List α) := b.entries.map Prod.snd

/-- The number of buckets. -/
def size (b : Buckets α) : Nat := b.entries.length

/-- Whether there are no buckets. -/
def isEmpty (b : Buckets α) : Bool := b.entries.isEmpty

/-- The number of items in all buckets. -/
def itemCount (b : Buckets α) : Nat := b.toList.flatten.length

/-- The bucket of a key. -/
def bucket? (b : Buckets α) (key : Key) : Option (List α) :=
  (b.entries.find? (·.1 == key)).map Prod.snd

/-- The position of the bucket of a key. -/
def index? (b : Buckets α) (key : Key) : Option Nat := b.entries.findIdx? (·.1 == key)

/-- The bucket at a position. -/
def bucketAt? (b : Buckets α) (i : Nat) : Option (List α) := b.entries[i]?.map Prod.snd

/-- The buckets in order, each with its position. -/
def enumerate (b : Buckets α) : List (Nat × List α) := b.toList.zipIdx.map Prod.swap

/-! ## Combinations -/

/-- Combine a probe with every item of the bucket of its key, or once with no item if there is no
such bucket. -/
def cross (b : Buckets α) (probe : π) (probeKey : π → Key) (combine : Option α → π → β) : List β :=
  match b.bucket? (probeKey probe) with
  | some xs => xs.map fun x => combine (some x) probe
  | none => [combine none probe]

/-- A probe that is combined with the items of a bucket one by one, as combinations are pulled. -/
structure Crossing (α π β : Type) where
  probe : π
  combine : Option α → π → β
  /-- The items of the bucket that are left, if the key of the probe has a bucket. -/
  bucket : Option (List α)
  /-- Whether the combination with no item is still to come. -/
  unmatched : Bool

/-- One pull: the next combination, unless there is none left. -/
def Crossing.pull (c : Crossing α π β) : Option β × Crossing α π β :=
  match c.bucket with
  | some (x :: rest) => (some (c.combine (some x) c.probe), { c with bucket := some rest })
  | some [] => (none, c)
  | none =>
    if c.unmatched then (some (c.combine none c.probe), { c with unmatched := false })
    else (none, c)

/-- Begin to combine a probe with the items of the bucket of its key. -/
def crossing (b : Buckets α) (probe : π) (probeKey : π → Key) (combine : Option α → π → β) :
    Crossing α π β where
  probe := probe
  combine := combine
  bucket := b.bucket? (probeKey probe)
  unmatched := (b.bucket? (probeKey probe)).isNone

end Buckets

end RecordFlow
