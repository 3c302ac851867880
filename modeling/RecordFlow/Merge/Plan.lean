import RecordFlow.Merge.Method
import RecordFlow.Merge.Selectors

/-!
# Merge plans

How rows are matched decides what else may be chosen: rows matched by fields are put together by a
combiner, and rows matched as whole records by a method, after which a mapper may reshape them. A
`Plan` is a choice that agrees with itself.
-/

namespace RecordFlow.Merge

/-- How left and right rows are matched. -/
inductive Matcher where
  | on (selectors : Selectors)
  | records (method : Method)

/-- The description of a matcher. -/
def Matcher.describe : Matcher → String
  | .on selectors => Text.describeAround "On" selectors.describe
  | .records method => Text.describeAround "Records" method.describe

/-- What makes the output row of a pair of rows, of which one may be missing. -/
inductive Combiner where
  | method (m : Method)
  | custom (f : Option Value → Option Value → Option Value)

namespace Combiner

/-- Matched rows only, fields of the left row first. -/
def standard : Combiner := .method .inner

/-- The output row of a pair, unless the pair is dropped. -/
def apply : Combiner → Option Value → Option Value → Option Value
  | .method m => m.combine
  | .custom f => f

/-- The description of a combiner. -/
def describe : Combiner → String
  | .method m => Text.describeAround "Combiner::Method" ("\"" ++ m.text ++ "\"")
  | .custom _ => "Combiner::Custom(..)"

end Combiner

/-- What a merge may be asked for. -/
structure Options where
  combiner : Option Combiner := none
  mapper : Option (Value → Value) := none
  /-- Keep one left row of each key, and look each right key up once. -/
  distinct : Bool := false

namespace Options

/-- Combine rows by the method that a text names. -/
def keywords (text : String) : Except Error Options := do
  return { combiner := some (.method (← Method.parse text)) }

/-- The combiner that was asked for, or the standard one. -/
def chosenCombiner (o : Options) : Combiner := o.combiner.getD .standard

/-- The description of options. -/
def describe (o : Options) : String :=
  Text.describeParts "MergeOptions"
    [("combiner", Text.describeOption (o.combiner.map Combiner.describe)),
      ("mapper_set", Text.describeBool o.mapper.isSome),
      ("distinct", Text.describeBool o.distinct)]

end Options

/-- A matcher and options that agree. -/
structure Plan where
  selectors : Selectors
  combiner : Combiner
  mapper : Option (Value → Value)
  distinct : Bool

namespace Plan

/-- The plan of a matcher and options. A mapper needs rows matched as whole records, and a combiner
rows matched by fields. -/
def make (matcher : Matcher) (options : Options) : Except Error Plan :=
  match matcher with
  | .on selectors =>
    if options.mapper.isSome then .error (.parameterMismatch .mapperOnFields)
    else .ok ⟨selectors, options.chosenCombiner, none, options.distinct⟩
  | .records method =>
    if options.combiner.isSome then .error (.parameterMismatch (.combinerOnRecords method))
    else .ok ⟨.wholeRecord, .method method, options.mapper, options.distinct⟩

/-- The output row of a pair, reshaped by the mapper if there is one. -/
def output (p : Plan) (l r : Option Value) : Option Value :=
  (p.combiner.apply l r).map (p.mapper.getD fun v => v)

/-- The description of a plan. -/
def describe (p : Plan) : String :=
  Text.describeParts "MergePlan"
    [("selectors", p.selectors.describe), ("combiner", p.combiner.describe),
      ("mapper_set", Text.describeBool p.mapper.isSome),
      ("distinct", Text.describeBool p.distinct)]

end Plan

end RecordFlow.Merge
