import RecordFlow.Text.Description
import RecordFlow.Value.Path

/-!
# Reducers

A reducer folds the records of a group into one value: by any function, or by an aggregate of
named columns, each a built-in reduction of one field. Sums and extremes stay integers as long as
every number is a signed 64-bit integer.
-/

namespace RecordFlow

/-- A built-in reduction. -/
inductive Reduction where
  | count | sum | min | max | avg | first | last
  deriving DecidableEq

namespace Reduction

/-- Every reduction. -/
def all : List Reduction := [.count, .sum, .min, .max, .avg, .first, .last]

/-- The name of a reduction. -/
def name : Reduction → String
  | .count => "count"
  | .sum => "sum"
  | .min => "min"
  | .max => "max"
  | .avg => "avg"
  | .first => "first"
  | .last => "last"

/-- The name of a reduction in descriptions. -/
def describe : Reduction → String
  | .count => "Count"
  | .sum => "Sum"
  | .min => "Min"
  | .max => "Max"
  | .avg => "Avg"
  | .first => "First"
  | .last => "Last"

/-- The reduction of a name. -/
def ofName? (name : String) : Option Reduction := all.find? (·.name == name)

/-! ## Numbers -/

/-- Fold one more integer into what was folded before. Sums are held to the signed 64-bit range. -/
def combineInt : Reduction → Int → Int → Int
  | .min, a, b => Min.min a b
  | .max, a, b => Max.max a b
  | _, a, b => Number.clamp (a + b)

/-- Fold one more machine number into what was folded before. Of two equal numbers, which may be
zeros of two signs, an extreme takes the later one. -/
def combineFloat : Reduction → Float → Float → Float
  | .min, a, b => if a < b then a else b
  | .max, a, b => if b < a then a else b
  | _, a, b => a + b

/-- A sum or an extreme of integers. -/
def reduceInts (op : Reduction) : List Int → Value
  | [] => .null
  | n :: rest => .number (.ofIntClamped (rest.foldl op.combineInt n))

/-- A sum or an extreme of machine numbers, or their mean. -/
def reduceFloats (op : Reduction) : List Float → Value
  | [] => .null
  | x :: rest =>
    let folded := rest.foldl op.combineFloat x
    .ofFloat (if op = .avg then folded / Float.ofNat (rest.length + 1) else folded)

/-- A sum, an extreme or the mean of numbers. The mean is a float; the others are integers if all
numbers are signed 64-bit integers. -/
def reduceNumbers (op : Reduction) (numbers : List Number) : Value :=
  match if op = .avg then none else numbers.mapM Number.toInt64? with
  | some ints => op.reduceInts ints
  | none => op.reduceFloats (numbers.map fun n => n.toBinary64.toFloat)

/-- Reduce a field of records. Counting looks at no field, and null is the first or the last field
of no records. -/
def apply (op : Reduction) (records : List Value) (field : String) : Value :=
  match op with
  | .count => .ofCount records.length
  | .first => (records.head?.map (·.atPath field)).getD .null
  | .last => (records.getLast?.map (·.atPath field)).getD .null
  | .sum | .min | .max | .avg =>
    op.reduceNumbers (records.filterMap fun r => (r.atPath field).number?)

end Reduction

/-! ## Aggregates -/

/-- A named reduction of a field. -/
structure Column where
  name : String
  field : String
  reduction : Reduction
  deriving DecidableEq

/-- The description of a column. -/
def Column.describe (c : Column) : String :=
  Text.describeParts "AggregateColumn"
    [("name", Text.quoted c.name), ("field", Text.quoted c.field), ("op", c.reduction.describe)]

/-- Named reductions that together make one object. -/
structure Aggregate where
  columns : List Column := []
  deriving DecidableEq

namespace Aggregate

/-- Add a column. -/
def column (a : Aggregate) (name : String) (reduction : Reduction) (field : String) : Aggregate :=
  ⟨a.columns ++ [⟨name, field, reduction⟩]⟩

/-- Add a column with the number of records, which is no reduction of a field. -/
def count (a : Aggregate) (name : String) : Aggregate := a.column name .count ""

/-- The object of all columns; the last of several columns of one name counts. -/
def apply (a : Aggregate) (records : List Value) : Value :=
  .object (Fields.ofList (a.columns.map fun c => (c.name, c.reduction.apply records c.field)))

/-- The description of an aggregate. -/
def describe (a : Aggregate) : String :=
  Text.describeParts "Aggregate" [("columns", Text.describeList (a.columns.map Column.describe))]

end Aggregate

/-! ## Reducers -/

/-- How a group is folded into one value. -/
inductive Reducer where
  | fold (f : List Value → Value)
  | aggregate (a : Aggregate)

namespace Reducer

/-- Fold the records of a group. -/
def apply : Reducer → List Value → Value
  | .fold f, records => f records
  | .aggregate a, records => a.apply records

/-- The description of a reducer. -/
def describe : Reducer → String
  | .fold _ => "Reducer::Fold(..)"
  | .aggregate a => Text.describeAround "Reducer::Aggregate" a.describe

end Reducer

end RecordFlow
