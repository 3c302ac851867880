import RecordFlow.Dataset
import RecordFlow.Load.File

/-!
# Sources

What a dataset starts from: a list of records, nested arrays, or the records of a file as some
readers take it apart.
-/

namespace RecordFlow

/-- What a dataset starts from. -/
inductive Source where
  | records (vs : List Value)
  | nested (v : Value) (level : Nat)
  | file (readers : Load.Readers) (path : String) (options : Load.Options)
    (content : Option (List UInt8))

namespace Source

/-- The dataset that starts from a source, and the log of loading it. -/
def dataset : Source → List Emission × Except Error Dataset
  | .records vs => ([], .ok (.ofRecords vs))
  | .nested v level => ([], Dataset.ofNested v level)
  | .file readers path options content =>
    let (released, loaded) := Load.ofFile readers path options content
    (released, loaded.map fun vs => .ofRecords vs)

/-- The dataset that starts from a source and reports to an observer, if there is one. -/
def datasetWith (source : Source) (observer : Option Observer) :
    List Emission × Except Error Dataset :=
  let (released, d) := source.dataset
  (released, d.map fun d => { d with observer := observer })

end Source

end RecordFlow
