import RecordFlow.Value.Text

/-!
# Schemas

A schema lists the fields that records are expected to have, each with a data type. Names may
repeat; the first field of a name counts.
-/

namespace RecordFlow

/-- The type of a field. -/
inductive DataType where
  | int64 | float64 | bool | utf8
  deriving DecidableEq

namespace DataType

/-- Every data type. -/
def all : List DataType := [.int64, .float64, .bool, .utf8]

/-- The name of a data type. -/
def name : DataType → String
  | .int64 => "Int64"
  | .float64 => "Float64"
  | .bool => "Bool"
  | .utf8 => "Utf8"

/-- The data type of a name. -/
def ofName? (name : String) : Option DataType := all.find? (·.name == name)

end DataType

namespace Schema

/-- A name and the type of the values under it. -/
structure Field where
  name : String
  dataType : DataType
  deriving DecidableEq

/-- The JSON text of a field. -/
def Field.json (f : Field) : String :=
  "\x7b\"name\":" ++ String.ofList (jsonString f.name) ++ ",\"data_type\":\"" ++ f.dataType.name ++
    "\"\x7d"

end Schema

/-- The fields that records are expected to have. -/
structure Schema where
  fields : List Schema.Field
  deriving DecidableEq

namespace Schema

/-- The first field of a name. -/
def field? (schema : Schema) (name : String) : Option Field :=
  schema.fields.find? (·.name == name)

/-- The compact JSON text of a schema. -/
def json (schema : Schema) : String :=
  "\x7b\"fields\":[" ++ ",".intercalate (schema.fields.map Field.json) ++ "]\x7d"

end Schema

end RecordFlow
