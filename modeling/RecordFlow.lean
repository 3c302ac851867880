import RecordFlow.Describe
import RecordFlow.Proofs.Dataset.Join
import RecordFlow.Proofs.Dataset.Refusal
import RecordFlow.Proofs.Key
import RecordFlow.Proofs.Merge.Statistics
import RecordFlow.Proofs.Traversal
import RecordFlow.Proofs.Value.Order
import RecordFlow.Proofs.Merge.Matches
import RecordFlow.Proofs.Merge.Symmetry
import RecordFlow.Proofs.Dataset.Distinct
import RecordFlow.Proofs.Dataset.Parts
import RecordFlow.Proofs.Dataset.Pipeline
import RecordFlow.Proofs.Dataset.Levels
import RecordFlow.Proofs.Dataset.Reordering
import RecordFlow.Proofs.Merge.Selectors
import RecordFlow.Proofs.Dataset.Grouping
import RecordFlow.Proofs.Dataset.Sorting
import RecordFlow.Proofs.Dataset.Reducing
import RecordFlow.Proofs.Dataset.Representatives
import RecordFlow.Proofs.Reducer.Sum
import RecordFlow.Proofs.Dataset.NestedGroups
import RecordFlow.Proofs.Value.Ties
import RecordFlow.Proofs.Dataset.SortedGroups
import RecordFlow.Proofs.MachineFloat
import RecordFlow.Proofs.Reducer.Extremes
import RecordFlow.Proofs.Reducer.Regrouping
import RecordFlow.Proofs.Dataset.Rollup
import RecordFlow.Proofs.Dataset.Ungrouping
import RecordFlow.Proofs.Load.Layouts
import RecordFlow.Proofs.Merge.Method
import RecordFlow.Proofs.Value.Fields
import RecordFlow.Proofs.Csv.Cell
import RecordFlow.Proofs.Csv.Records
import RecordFlow.Proofs.Csv.Declared
import RecordFlow.Proofs.Value.Composition
import RecordFlow.Proofs.NestedArrays
import RecordFlow.Proofs.Insertions
import RecordFlow.Proofs.Merge.States
