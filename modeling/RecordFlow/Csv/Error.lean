/-!
# Faults of CSV text

A record of a CSV text is refused if it has another number of fields than the records before it,
or if a field is not UTF-8.
-/

namespace RecordFlow.Csv

/-- Where the search for a record began: the number of records and bytes before it, and the line,
from one. -/
structure Position where
  record : Nat
  line : Nat
  byte : Nat
  deriving DecidableEq

/-- Why a CSV text is refused. -/
inductive ReadError where
  | unequalLengths (position : Position) (length expected : Nat)
  | invalidUtf8 (position : Position) (field validUpTo : Nat)
  deriving DecidableEq

/-- The wording of an error. -/
def ReadError.message : ReadError → String
  | .unequalLengths p length expected =>
    "CSV error: record " ++ toString p.record ++ " (line: " ++ toString p.line ++ ", byte: " ++
      toString p.byte ++ "): found record with " ++ toString length ++
      " fields, but the previous record has " ++ toString expected ++ " fields"
  | .invalidUtf8 p field validUpTo =>
    "CSV parse error: record " ++ toString p.record ++ " (line " ++ toString p.line ++
      ", field: " ++ toString field ++ ", byte: " ++ toString p.byte ++
      "): invalid utf-8: invalid UTF-8 in field " ++ toString field ++ " near byte index " ++
      toString validUpTo

end RecordFlow.Csv
