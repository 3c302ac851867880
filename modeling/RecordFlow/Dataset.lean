import RecordFlow.Merge.Run
import RecordFlow.Stage

/-!
# Datasets

A dataset holds data nested to its group level: one item at level zero, a sequence of records at
level one, and groups above that. Operations change the data and the level, and report what they
do. Work is left to the first pull, so a call that only chains an operation sets free its own
report and nothing else; `get` and what collapses the data to one item pull everything.
-/

namespace RecordFlow

/-! ## Data -/

/-- The data of a dataset: a single item, or a sequence that is pulled. -/
inductive Data where
  | item (v : Value)
  | nodes (feed : Feed Node)

namespace Data

/-- Nested data of which pulling sets nothing free. -/
def ofNode : Node → Data
  | .record v => .item v
  | .group items => .nodes (.ofList items)

/-- The data as a node, whatever pulling them would set free. -/
def toNode : Data → Node
  | .item v => .record v
  | .nodes feed => .group feed.items

/-- The data as a sequence: a single item stands for itself. -/
def toFeed : Data → Feed Node
  | .item v => .ofList [.record v]
  | .nodes feed => feed

/-- Apply a stage to the base sequences of data nested to a level. -/
def mapBase (s : Stage) : Nat → Data → Data
  | 0, data => ofNode (s.onSingle data.toNode)
  | _ + 1, .item v => .item v
  | 1, .nodes feed => .nodes (s feed)
  | level + 2, .nodes feed => .nodes (feed.map (Node.mapBase s (level + 1)))

/-- Data nested to a level as nested arrays: what pulling them sets free, and the value. -/
def toValue : Nat → Data → List Emission × Except Error Value
  | 0, .item v => ([], .ok v)
  | 0, .nodes _ => ([], .error (.shapeMismatch (.unexpected .item .group 0)))
  | level + 1, .item _ => ([], .error (.shapeMismatch (.unexpected .group .record (level + 1))))
  | level + 1, .nodes feed =>
    let itemToValue := Node.itemToValue (fun v => v) (Node.toValue level) level
    let (released, items) := feed.traverse itemToValue
    (released, items.map .array)

end Data

/-! ## Datasets -/

/-- A lazily evaluated, possibly nested collection of records. -/
structure Dataset where
  data : Data
  level : Nat
  observer : Option Observer

/-- What a call leaves behind: the dataset, what the call sets free, and its result. -/
structure Outcome (α : Type) where
  dataset : Dataset
  released : List Emission
  result : Except Error α

namespace Outcome

variable {α β : Type}

/-- Go on with another call if this one succeeds. -/
def andThen (o : Outcome α) (next : α → Dataset → Outcome β) : Outcome β :=
  match o.result with
  | .error e => ⟨o.dataset, o.released, .error e⟩
  | .ok a =>
    let after := next a o.dataset
    { after with released := o.released ++ after.released }

end Outcome

namespace Dataset

/-! ## Sources -/

/-- What a dataset may be set up with. -/
structure Options where
  observer : Option Observer := none

/-- The description of options. -/
def Options.describe (o : Options) : String :=
  Text.describeParts "PipelineOptions"
    [("observer_set", Text.describeBool o.observer.isSome)]

/-- A sequence of records. -/
def ofRecords (records : List Value) (options : Options := {}) : Dataset :=
  ⟨.nodes (.ofList (records.map .record)), 1, options.observer⟩

/-- Data nested to a level, as nested arrays. -/
def ofNested (v : Value) (level : Nat) : Except Error Dataset := do
  return ⟨.ofNode (← Node.ofValue? level v), level, none⟩

/-- Report to an observer from now on. -/
def observe (d : Dataset) (observer : Observer) : Dataset := { d with observer := some observer }

/-! ## Chained operations -/

/-- The report of an operation that changed the level of a dataset. -/
def report (d : Dataset) (operation : Operation) (before : Nat) : List Emission :=
  .log .debug (operation.name ++ ": " ++ Event.levelChange before d.level) ::
    Emission.announce d.observer (.applied operation before d.level)

/-- A call that succeeded with a chained operation. -/
def applied (d : Dataset) (operation : Operation) (before : Nat) : Outcome Unit :=
  ⟨d, d.report operation before, .ok ()⟩

/-- Chain a stage that keeps the level. -/
def chain (d : Dataset) (operation : Operation) (s : Stage) : Outcome Unit :=
  applied { d with data := d.data.mapBase s d.level } operation d.level

/-- Transform every record. -/
def map (d : Dataset) (f : Value → Value) : Outcome Unit := d.chain .map (.map f)

/-- Keep the records that pass a test. -/
def filter (d : Dataset) (p : Value → Bool) : Outcome Unit := d.chain .filter (.filter p)

/-- Sort every base group. -/
def sort (d : Dataset) (sorting : Sorting) : Outcome Unit :=
  let after := d.chain .sort (.sort sorting)
  { after with
    released :=
      .log .debug ("sort by " ++ toString sorting.parameterCount ++ " argument function") ::
        after.released }

/-- Keep the first record of each key in every base group. -/
def distinct (d : Dataset) (keyOf : Value → Value) : Outcome Unit :=
  d.chain .distinct (.distinct keyOf)

/-- Split every base group into groups of one key each. The level goes up by one. -/
def group (d : Dataset) (keyOf : Value → Value) : Outcome Unit :=
  applied { d with data := d.data.mapBase (.group keyOf) d.level, level := d.level + 1 } .group
    d.level

/-- Fold every base group into a group of one record. -/
def reduceKeep (d : Dataset) (r : Reducer) : Outcome Unit := d.chain .reduce (.reduce r)

/-! ## Ungrouping -/

/-- Pull a sequence that should hold a single record, and make the record the data. If it does not,
the items stay the data. -/
def collapse (d : Dataset) : Outcome Unit :=
  let feed := d.data.toFeed
  let kept : Data := .nodes (.ofList feed.items)
  match feed.items with
  | [.record v] => ⟨{ d with data := .item v }, feed.released, .ok ()⟩
  | [.group _] =>
    ⟨{ d with data := kept }, feed.released, .error (.shapeMismatch .groupInCollapse)⟩
  | items => ⟨{ d with data := kept }, feed.released, .error (.collapseNotSingle items.length)⟩

/-- Remove one level of grouping and transform every record. At level one the dataset must hold a
single item, which becomes the item of a dataset of level zero as it is. -/
def ungroup (d : Dataset) (f : Value → Value) : Outcome Unit :=
  match d.level with
  | 0 => ⟨d, [], .error .ungroupBelowZero⟩
  | 1 => d.collapse.andThen fun _ d => applied { d with level := 0 } .ungroup 1
  | level + 2 =>
    applied { d with data := d.data.mapBase (.flatten f) (level + 1), level := level + 1 } .ungroup
      (level + 2)

/-- Remove one level of grouping. -/
def flatten (d : Dataset) : Outcome Unit := d.ungroup fun v => v

/-- Fold every base group, and ungroup if asked to. A dataset of level zero is folded as a group of
one record and stays at level zero. -/
def reduceWith (d : Dataset) (r : Reducer) (ungroupAfter : Bool) : Outcome Unit :=
  (d.reduceKeep r).andThen fun _ d =>
    if ungroupAfter && 0 < d.level then d.flatten else ⟨d, [], .ok ()⟩

/-- Fold every base group into one record and ungroup. -/
def reduce (d : Dataset) (r : Reducer) : Outcome Unit := d.reduceWith r true

/-! ## Merging -/

/-- Merge another dataset into this one. Both must be at level one. Rows are read when the result
is pulled. -/
def merge (d incoming : Dataset) (matcher : Merge.Matcher) (options : Merge.Options) :
    Outcome Unit :=
  if d.level ≠ 1 ∨ incoming.level ≠ 1 then
    ⟨d, [], .error (.unsupportedMergeDepth d.level incoming.level)⟩
  else
    match Merge.Plan.make matcher options with
    | .error e => ⟨d, [], .error e⟩
    | .ok plan =>
      let rows := Merge.feeds plan d.observer d.data.toFeed incoming.data.toFeed
      let after := applied { d with data := .nodes rows } .merge 1
      { after with released := .log .debug ("merge with " ++ plan.describe) :: after.released }

/-! ## Materialization -/

/-- The data as nested arrays. The dataset keeps them, pulled, and stays usable. -/
def get (d : Dataset) : Outcome Value :=
  let (released, value) := d.data.toValue d.level
  match (do let v ← value; return (v, ← Node.ofValue? d.level v) : Except Error (Value × Node)) with
  | .error e => ⟨{ d with data := .nodes (.finish []) }, released, .error e⟩
  | .ok (v, node) =>
    ⟨{ d with data := .ofNode node },
      released ++ Emission.announce d.observer (.materialized d.level), .ok v⟩

/-- Hand the data as nested arrays to a function. The dataset stays usable. -/
def inspect {α : Type} (d : Dataset) (see : Value → α) : Outcome α :=
  d.get.andThen fun v d => ⟨d, [], .ok (see v)⟩

/-- The data as nested arrays, with a function applied to every record. The dataset keeps the data
as they were. -/
def getWith (d : Dataset) (f : Value → Value) : Outcome Value :=
  d.get.andThen fun v d =>
    ⟨d, [], do Node.toValueWith f d.level (← Node.ofValue? d.level v)⟩

/-- The data as nested arrays, at the end of a dataset. -/
def intoValue (d : Dataset) : List Emission × Except Error Value :=
  let (released, value) := d.data.toValue d.level
  match value with
  | .error e => (released, .error e)
  | .ok v => (released ++ Emission.announce d.observer (.materialized d.level), .ok v)

/-- The description of a dataset. -/
def describe (d : Dataset) : String :=
  Text.describeParts "Dataset"
    [("group_level", toString d.level), ("observed", Text.describeBool d.observer.isSome)]

end Dataset

end RecordFlow
