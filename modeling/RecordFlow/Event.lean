import RecordFlow.Text.Description

/-!
# Events

What a dataset reports: each operation chained onto it, each materialization, and for each merge a
summary once its output is found to be exhausted. An event has a description for the log
(`Event.describe`) and a line for the console (`Event.line`).
-/

namespace RecordFlow

/-- An operation that is chained onto a dataset. -/
inductive Operation where
  | map | filter | sort | group | ungroup | reduce | distinct | merge
  deriving DecidableEq

namespace Operation

/-- Every operation. -/
def all : List Operation := [.map, .filter, .sort, .group, .ungroup, .reduce, .distinct, .merge]

/-- The name of an operation. -/
def name : Operation → String
  | .map => "map"
  | .filter => "filter"
  | .sort => "sort"
  | .group => "group"
  | .ungroup => "ungroup"
  | .reduce => "reduce"
  | .distinct => "distinct"
  | .merge => "merge"

/-- The name of an operation in descriptions. -/
def describe : Operation → String
  | .map => "Map"
  | .filter => "Filter"
  | .sort => "Sort"
  | .group => "Group"
  | .ungroup => "Ungroup"
  | .reduce => "Reduce"
  | .distinct => "Distinct"
  | .merge => "Merge"

/-- The operation of a name. -/
def ofName? (name : String) : Option Operation := all.find? (·.name == name)

end Operation

/-- Counters of one merge. -/
structure MergeStats where
  /-- Left rows kept in the index. -/
  leftRows : Nat := 0
  /-- Right rows looked up in the index. -/
  probes : Nat := 0
  /-- Right rows left out because their key had been looked up before. -/
  skippedDuplicates : Nat := 0
  /-- Pairs of a left and a right row with one key. -/
  matchedPairs : Nat := 0
  /-- Right rows without a left row of their key. -/
  rightOnly : Nat := 0
  /-- Left rows without a right row of their key. -/
  leftOnly : Nat := 0
  /-- Rows delivered. -/
  emitted : Nat := 0
  deriving DecidableEq

namespace MergeStats

/-- The counters with their names. -/
def counters (s : MergeStats) : List (String × Nat) :=
  [("left_rows", s.leftRows), ("probes", s.probes), ("skipped_duplicates", s.skippedDuplicates),
    ("matched_pairs", s.matchedPairs), ("right_only", s.rightOnly), ("left_only", s.leftOnly),
    ("emitted", s.emitted)]

/-- The description of merge counters. -/
def describe (s : MergeStats) : String :=
  Text.describeParts "MergeStats" (s.counters.map fun c => (c.1, toString c.2))

/-- The counters that summaries show. -/
def summary (s : MergeStats) : String :=
  "probes=" ++ toString s.probes ++ " matched=" ++ toString s.matchedPairs ++ " right_only=" ++
    toString s.rightOnly ++ " left_only=" ++ toString s.leftOnly ++ " emitted=" ++
    toString s.emitted

end MergeStats

/-- What a dataset reports. -/
inductive Event where
  | applied (operation : Operation) (before after : Nat)
  | materialized (level : Nat)
  | mergeFinished (stats : MergeStats)
  deriving DecidableEq

namespace Event

/-- The description of an event. -/
def describe : Event → String
  | .applied operation before after =>
    Text.describeParts "OperationApplied"
      [("op", operation.describe), ("level_before", toString before),
        ("level_after", toString after)]
  | .materialized level => Text.describeParts "Materialized" [("group_level", toString level)]
  | .mergeFinished stats => Text.describeParts "MergeFinished" [("stats", stats.describe)]

/-- The change of level that an operation makes, in words. -/
def levelChange (before after : Nat) : String :=
  "group_level " ++ toString before ++ " -> " ++ toString after

/-- The line of an event on the console. -/
def line : Event → String
  | .applied operation before after =>
    "[pipeline][" ++ operation.name ++ "] " ++ levelChange before after
  | .materialized level => "[pipeline][get] materialized at group_level " ++ toString level
  | .mergeFinished stats =>
    "[pipeline][merge] left_rows=" ++ toString stats.leftRows ++ " " ++ stats.summary

end Event

end RecordFlow
