import RecordFlow.Csv.Records
import RecordFlow.Json.Document
import RecordFlow.Load.Json
import RecordFlow.Schema.Reader

/-!
# Loading files

The format of a file is asked for or follows from the extension of its path. A file is given by
its path and its bytes, or by its path alone if there is no such file. Its content is taken apart by
a reader of each format (`Load.Readers`), and loading takes any such readers.
-/

namespace RecordFlow.Load

/-! ## Formats -/

/-- A format of records. -/
inductive Format where
  | csv | json
  deriving DecidableEq

namespace Format

/-- The description of a format. -/
def describe : Format → String
  | .csv => "Csv"
  | .json => "Json"

/-- The format of a file extension, in letters of any case. -/
def ofExtension? (extension : List Char) : Option Format :=
  match String.ofList (extension.map Char.toLower) with
  | "csv" => some .csv
  | "json" | "ndjson" | "jsonl" => some .json
  | _ => none

end Format

/-- The last component of a path, unless that leads upwards or stays in place. Slashes at the end
and components that stay in place are left out, but for one at the start. -/
def fileName? (path : List Char) : Option (List Char) :=
  match Text.splitOn '/' path with
  | [] => none
  | first :: rest =>
    let named := rest.filter fun part => part ≠ [] ∧ part ≠ ['.']
    match (if first = [] then named else first :: named).getLast? with
    | none => none
    | some name => if name = ['.'] ∨ name = ['.', '.'] then none else some name

/-- The extension of a path: what follows the last point of its last component, if anything comes
before that point. -/
def extension? (path : List Char) : Option (List Char) := do
  let (stem, extension) ← Text.splitLast? '.' (← fileName? path)
  if stem = [] then none else some extension

/-- The format that the extension of a path stands for. -/
def Format.ofPath? (path : String) : Option Format :=
  (extension? path.toList).bind Format.ofExtension?

/-- How a file is loaded. -/
structure Options where
  format : Option Format := none
  schema : Option Schema := none

namespace Options

/-- The description of a schema. -/
def describeSchema (s : Schema) : String :=
  Text.describeParts "Schema"
    [("fields", Text.describeList (s.fields.map fun f =>
      Text.describeParts "Field"
        [("name", Text.quoted f.name), ("data_type", f.dataType.name)]))]

/-- The description of loading options. -/
def describe (o : Options) : String :=
  Text.describeParts "IngestionOptions"
    [("format", Text.describeOption (o.format.map Format.describe)),
      ("schema", Text.describeOption (o.schema.map describeSchema))]

end Options

/-! ## Loading -/

/-- How the content of files is taken apart: documents of JSON and tables of CSV. -/
structure Readers where
  document : List Char → Except Json.ReadError Value
  table : List UInt8 → Except Csv.ReadError Csv.Table

/-- The readers of this library. -/
def Readers.standard : Readers := ⟨Json.readDocument, Csv.readTable {}⟩

/-- The records of a CSV text, and the log of loading them. -/
def ofCsv (read : List UInt8 → Except Csv.ReadError Csv.Table) (schema : Option Schema)
    (bytes : List UInt8) : List Emission × Except Error (List Value) :=
  match read bytes with
  | .error e => ([], .error (.csv (.text e)))
  | .ok table =>
    match Csv.recordsOf schema table with
    | .error e => ([], .error e)
    | .ok records =>
      ([.log .debug ("read " ++ toString records.length ++ " csv records (" ++
        toString table.headers.length ++ " columns)")], .ok records)

/-- The records of a file in a format. -/
def ofContent (readers : Readers) (format : Format) (schema : Option Schema)
    (content : Option (List UInt8)) : List Emission × Except Error (List Value) :=
  match format, content with
  | .csv, none => ([], .error (.csv (.file .notFound)))
  | .json, none => ([], .error (.file .notFound))
  | .csv, some bytes => ofCsv readers.table schema bytes
  | .json, some bytes =>
    match Text.decode bytes with
    | .error _ => ([], .error (.file .notUtf8))
    | .ok text => ofJson readers.document schema text

/-- The records of a file, and the log of loading them. -/
def ofFile (readers : Readers) (path : String) (options : Options)
    (content : Option (List UInt8)) : List Emission × Except Error (List Value) :=
  match options.format.or (Format.ofPath? path) with
  | none => ([], .error (.unsupportedFormat path))
  | some format =>
    let (released, records) := ofContent readers format options.schema content
    (.log .debug ("loading " ++ path ++ " as " ++ format.describe) :: released, records)

/-- The schema in a file. -/
def schemaOfFile (content : Option (List UInt8)) : Except Error Schema :=
  match content with
  | none => .error (.file .notFound)
  | some bytes => (Schema.ofBytes bytes).mapError .json

end RecordFlow.Load
