import RecordFlow.Error
import RecordFlow.Observer
import RecordFlow.Text.Blank
import RecordFlow.Text.Split
import RecordFlow.Value.Path

/-!
# Loading JSON records

A text holds records as one array, as one object, or as a document on each line. A text that is no
single document is read line by line. How a document is read is not fixed here: loading takes any
reader of documents. Under a schema every record must be an object that has each field of the
schema, null or of its type.
-/

namespace RecordFlow.Load

/-! ## Records of a text -/

section Records

variable (read : List Char → Except Json.ReadError Value)

/-- The records of lines, the first of them being of a number. Blank lines hold none. -/
def lineRecords : Nat → List (List Char) → Except Error (List Value)
  | _, [] => .ok []
  | number, line :: rest =>
    let line := Text.trim line
    if line = [] then lineRecords (number + 1) rest
    else
      match read line with
      | .error e => .error (.schemaMismatch (.badLine number e))
      | .ok v => do return v :: (← lineRecords (number + 1) rest)

/-- The records of a text, if it is one document or a document on each line. -/
def jsonRecords (text : List Char) : Except Error (List Value) :=
  let text := Text.trim text
  if text = [] then .error (.schemaMismatch .emptyText)
  else
    match read text with
    | .ok (.array items) => .ok items
    | .ok (.object fields) => .ok [.object fields]
    | .ok v => .error (.schemaMismatch (.topLevel v.kind))
    | .error _ => lineRecords read 1 (Text.lines text)

end Records

/-! ## The schema check -/

/-- Whether a value is null or of a type. Any number is a float. -/
def hasType (dataType : DataType) (v : Value) : Bool :=
  match dataType, v with
  | _, .null => true
  | .utf8, .string _ => true
  | .bool, .bool _ => true
  | .int64, .number n => n.toInt64?.isSome
  | .float64, .number _ => true
  | _, _ => false

/-- Check one field of a record. -/
def checkField (row : Nat) (record : Value) (field : Schema.Field) : Except Error Unit :=
  let v := record.atPath field.name
  if v.kind = .null ∧ !record.hasField field.name then
    .error (.schemaMismatch (.missingField row field.name))
  else if hasType field.dataType v then .ok ()
  else .error (.badCell row field.name v.json (.wrongKind field.dataType v.kind))

/-- Check one record. -/
def checkRecord (schema : Schema) (row : Nat) (record : Value) : Except Error Unit :=
  match record with
  | .object _ => schema.fields.forM (checkField row record)
  | _ => .error (.schemaMismatch (.notObject row))

/-- Check records, the first of them being of a number. -/
def checkRecords (schema : Schema) : Nat → List Value → Except Error Unit
  | _, [] => .ok ()
  | row, record :: rest => do
    checkRecord schema row record
    checkRecords schema (row + 1) rest

/-! ## Loading -/

/-- The records of a JSON text, held to a schema if there is one, and the log of loading them. -/
def ofJson (read : List Char → Except Json.ReadError Value) (schema : Option Schema)
    (text : List Char) : List Emission × Except Error (List Value) :=
  let loaded := do
    let records ← jsonRecords read text
    match schema with
    | some schema => checkRecords schema 1 records
    | none => pure ()
    return records
  match loaded with
  | .ok records =>
    ([.log .debug ("parsed " ++ toString records.length ++ " json records")], .ok records)
  | .error e => ([], .error e)

end RecordFlow.Load
