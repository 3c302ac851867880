import RecordFlow.Key
import RecordFlow.Node
import RecordFlow.Text.Description

/-!
# Descriptions of data

The descriptions of keys, values and nodes, which name the kind of every part. The items of a group
are not described, since that would pull them.
-/

namespace RecordFlow

namespace Key

mutual

/-- The description of a key. -/
def describe : Key → String
  | .null => "Null"
  | .bool b => Text.describeAround "Bool" (Text.describeBool b)
  | .int n => Text.describeAround (if n < 0x8000000000000000 then "Int" else "UInt") (toString n)
  | .float x => Text.describeAround "Float" (toString x.bits.toNat)
  | .string s => Text.describeAround "Str" (Text.quoted s)
  | .list items => Text.describeAround "List" (Text.describeList (describeItems items))
  | .map fields => Text.describeAround "Map" (Text.describeList (describeFields fields))

/-- The descriptions of items. -/
def describeItems : List Key → List String
  | [] => []
  | k :: rest => describe k :: describeItems rest

/-- The descriptions of fields. -/
def describeFields : List (String × Key) → List String
  | [] => []
  | (name, k) :: rest =>
    ("(" ++ Text.quoted name ++ ", " ++ describe k ++ ")") :: describeFields rest

end

end Key

namespace Value

mutual

/-- The description of a value. -/
def describe : Value → String
  | .null => "Null"
  | .bool b => Text.describeAround "Bool" (Text.describeBool b)
  | .number n => Text.describeAround "Number" n.text
  | .string s => Text.describeAround "String" (Text.quoted s)
  | .array items => "Array " ++ Text.describeList (describeItems items)
  | .object fields =>
    "Object \x7b" ++ Text.commaSeparated (describeFields fields) ++ "\x7d"

/-- The descriptions of items. -/
def describeItems : List Value → List String
  | [] => []
  | v :: rest => describe v :: describeItems rest

/-- The descriptions of fields. -/
def describeFields : List (String × Value) → List String
  | [] => []
  | (name, v) :: rest => (Text.quoted name ++ ": " ++ describe v) :: describeFields rest

end

end Value

/-- The description of a node. -/
def Node.describe : Node → String
  | .record v => Text.describeAround "Record" v.describe
  | .group _ => "Group(..)"

end RecordFlow
