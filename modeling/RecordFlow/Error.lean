import RecordFlow.Csv.Error
import RecordFlow.Json.Error
import RecordFlow.Merge.Token
import RecordFlow.Schema
import RecordFlow.Text.Numeral

/-!
# Errors

Every way in which an operation of the library fails, as a cause with the data that describe it,
and the wording of each (`Error.message`).
-/

namespace RecordFlow

/-! ## Causes -/

/-- A place in nested data and what may stand there. -/
inductive Shape where
  | item | group | record | baseRecord
  deriving DecidableEq

/-- The description of a shape. -/
def Shape.describe : Shape → String
  | .item => "a single item"
  | .group => "a group"
  | .record => "a record"
  | .baseRecord => "a base record"

/-- How data differ from their group level. -/
inductive ShapeFault where
  | notArray (level : Nat) (found : Kind)
  | unexpected (expected found : Shape) (level : Nat)
  | groupInCollapse
  deriving DecidableEq

/-- The wording of a shape fault. -/
def ShapeFault.message : ShapeFault → String
  | .notArray level found =>
    "expected an array at nesting level " ++ toString level ++ ", found " ++ found.name
  | .unexpected expected found level =>
    "expected " ++ expected.describe ++ " at group level " ++ toString level ++ ", found " ++
      found.describe
  | .groupInCollapse => "expected a base record at group level 1, found a group"

/-- How a matcher and the options of a merge disagree. -/
inductive ParameterFault where
  | mapperOnFields
  | combinerOnRecords (method : Merge.Method)
  deriving DecidableEq

/-- The wording of a parameter fault. -/
def ParameterFault.message : ParameterFault → String
  | .mapperOnFields =>
    "a field-equality merge combines (left, right) pairs; pass a combiner instead of " ++
      "a record mapper"
  | .combinerOnRecords method =>
    "a record-equality merge already combines with \"" ++ method.text ++
      "\"; pass a record mapper instead of a combiner"

/-- Why a file cannot be read. -/
inductive FileFault where
  | notFound | notUtf8
  deriving DecidableEq

/-- The wording of a file fault. -/
def FileFault.message : FileFault → String
  | .notFound => "No such file or directory (os error 2)"
  | .notUtf8 => "stream did not contain valid UTF-8"

/-- Why a CSV text cannot be read. -/
inductive CsvFault where
  | file (fault : FileFault)
  | text (error : Csv.ReadError)

/-- The wording of a CSV fault. -/
def CsvFault.message : CsvFault → String
  | .file fault => fault.message
  | .text error => error.message

/-- How loaded text differs from the expected layout or schema. -/
inductive LayoutFault where
  | emptyText
  | topLevel (found : Kind)
  | badLine (line : Nat) (error : Json.ReadError)
  | missingColumn (name : String) (headers : List String)
  | notObject (row : Nat)
  | missingField (row : Nat) (name : String)

/-- The wording of a layout fault. -/
def LayoutFault.message : LayoutFault → String
  | .emptyText => "json input is empty"
  | .topLevel found =>
    "json must be an object, an array of records, or NDJSON; found a top-level " ++ found.name
  | .badLine line error => "invalid ndjson at line " ++ toString line ++ ": " ++ error.message
  | .missingColumn name headers =>
    "missing required column '" ++ name ++ "'. headers=[" ++
      ", ".intercalate (headers.map Text.quoted) ++ "]"
  | .notObject row => "row " ++ toString row ++ " is not a json object"
  | .missingField row name => "row " ++ toString row ++ " missing required field '" ++ name ++ "'"

/-- Why a cell or a field is not of its type. -/
inductive CellFault where
  | numeral (fault : Text.NumeralFault)
  | nonFinite
  | notBool
  | wrongKind (expected : DataType) (found : Kind)
  deriving DecidableEq

/-- The wording of a cell fault. -/
def CellFault.message : CellFault → String
  | .numeral fault => fault.message
  | .nonFinite => "non-finite float"
  | .notBool => "expected bool (true/false/1/0/yes/no)"
  | .wrongKind expected found => "expected " ++ expected.name ++ ", found " ++ found.name

/-! ## Errors -/

/-- Why an operation fails. -/
inductive Error where
  | collapseNotSingle (count : Nat)
  | ungroupBelowZero
  | shapeMismatch (fault : ShapeFault)
  | unsupportedMergeDepth (target incoming : Nat)
  | unknownMergeKeyword (token : String)
  | malformedMergeMethod (input : String)
  | stackOnUnmatched
  | parameterMismatch (fault : ParameterFault)
  | file (fault : FileFault)
  | csv (fault : CsvFault)
  | json (error : Json.ReadError)
  | unsupportedFormat (path : String)
  | schemaMismatch (fault : LayoutFault)
  | badCell (row : Nat) (column raw : String) (fault : CellFault)

/-- The wording of an error. -/
def Error.message : Error → String
  | .collapseNotSingle count =>
    "cannot collapse to group level 0: dataset holds " ++ toString count ++
      " items, expected exactly one"
  | .ungroupBelowZero => "cannot ungroup below group level 0"
  | .shapeMismatch fault => "shape mismatch: " ++ fault.message
  | .unsupportedMergeDepth target incoming =>
    "merge requires both datasets at group level 1 (target=" ++ toString target ++ ", incoming=" ++
      toString incoming ++ ")"
  | .unknownMergeKeyword token =>
    "unknown merge keyword '" ++ token ++ "': expected one of " ++ Merge.Token.names
  | .malformedMergeMethod input =>
    "malformed merge method '" ++ input ++ "': expected \"<onMatched> <onUnmatched>\""
  | .stackOnUnmatched => "'stack' is only valid for matched rows"
  | .parameterMismatch fault => "parameter mismatch: " ++ fault.message
  | .file fault => "io error: " ++ fault.message
  | .csv fault => "csv error: " ++ fault.message
  | .json error => "json error: " ++ error.message
  | .unsupportedFormat path =>
    "unsupported ingestion format for '" ++ path ++ "': expected .csv, .json or .ndjson"
  | .schemaMismatch fault => "schema mismatch: " ++ fault.message
  | .badCell row column raw fault =>
    "failed to parse value at row " ++ toString row ++ " column '" ++ column ++ "': " ++
      fault.message ++ " (raw='" ++ raw ++ "')"

end RecordFlow
