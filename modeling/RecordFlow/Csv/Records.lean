import RecordFlow.Csv.Cell
import RecordFlow.Csv.Table

/-!
# Records of a CSV table

Each row of a table is an object whose fields are named by the columns. The columns that a schema
names are read under their types and the others by what they look like; the first cell that is not
of its type, row by row, is the error.
-/

namespace RecordFlow.Csv

/-- The value of a cell in a row, counting the header as row one, and a column. -/
def cellValue (schema : Option Schema) (row : Nat) (column raw : String) : Except Error Value :=
  match schema.bind (·.field? column) with
  | none => .ok (Cell.infer raw)
  | some field =>
    match Cell.read field.dataType raw with
    | .ok v => .ok v
    | .error fault => .error (.badCell row column raw fault)

/-- The fields of a row, a missing cell being blank and further cells being left out. -/
def rowFields (schema : Option Schema) (row : Nat) :
    List String → List String → Except Error (List (String × Value))
  | [], _ => .ok []
  | column :: columns, cells => do
    let v ← cellValue schema row column (cells.head?.getD "")
    return (column, v) :: (← rowFields schema row columns cells.tail)

/-- The records of rows, the first of them being of a number. -/
def rowRecords (schema : Option Schema) (headers : List String) :
    Nat → List (Except ReadError (List String)) → Except Error (List Value)
  | _, [] => .ok []
  | row, cells :: rest =>
    match cells with
    | .error e => .error (.csv (.text e))
    | .ok cells => do
      let fields ← rowFields schema row headers cells
      return .object (Fields.ofList fields) :: (← rowRecords schema headers (row + 1) rest)

/-- The records of a table: an object of every row, its fields named by the columns. The last of
several columns of one name counts, and every field of a schema must be a column. -/
def recordsOf (schema : Option Schema) (table : Table) : Except Error (List Value) :=
  match schema.bind fun s => s.fields.find? fun f => !table.headers.contains f.name with
  | some field => .error (.schemaMismatch (.missingColumn field.name table.headers))
  | none => rowRecords schema table.headers 2 table.rows

end RecordFlow.Csv
