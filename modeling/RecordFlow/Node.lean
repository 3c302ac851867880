import RecordFlow.Error
import RecordFlow.Value

/-!
# Nested data

A node is a record or a group of nodes. Data nested to a level are a record at level zero, and
above it a group of data nested to the level below. `Node.ofValue?` reads an array of arrays as
nested data, and `Node.toValueWith` turns nested data back into arrays.
-/

namespace RecordFlow

/-- A record, or a group of records or further groups. -/
inductive Node where
  | record (v : Value)
  | group (items : List Node)
  deriving Inhabited

namespace Node

/-- The record that a node is, if it is one. -/
def record? : Node → Option Value
  | .record v => some v
  | .group _ => none

/-- Whether a node is a group. -/
def isGroup : Node → Bool
  | .record _ => false
  | .group _ => true

/-- Transform a record; a group stays as it is. -/
def mapRecord (f : Value → Value) : Node → Node
  | .record v => .record (f v)
  | .group items => .group items

/-- The items of a group; a record stands for itself. -/
def items : Node → List Node
  | .record v => [.record v]
  | .group items => items

/-! ## Nested arrays -/

/-- A value as data nested to a level: each level above zero must be an array. -/
def ofValue? : Nat → Value → Except Error Node
  | 0, v => .ok (.record v)
  | level + 1, .array items => do return .group (← items.mapM (ofValue? level))
  | level + 1, v => .error (.shapeMismatch (.notArray (level + 1) v.kind))

/-- An item of a group whose items are nested to a level, given how deeper ones are turned into
values. -/
def itemToValue (f : Value → Value) (deeper : Node → Except Error Value) :
    Nat → Node → Except Error Value
  | 0, .record v => .ok (f v)
  | 0, .group _ => .error (.shapeMismatch (.unexpected .baseRecord .group 1))
  | _ + 1, node => deeper node

/-- Data nested to a level as nested arrays, with a function applied to every record. -/
def toValueWith (f : Value → Value) : Nat → Node → Except Error Value
  | 0, .record v => .ok (f v)
  | 0, .group _ => .error (.shapeMismatch (.unexpected .item .group 0))
  | level + 1, .record _ => .error (.shapeMismatch (.unexpected .group .record (level + 1)))
  | level + 1, .group items => do
    return .array (← items.mapM (itemToValue f (toValueWith f level) level))

/-- Data nested to a level as nested arrays. -/
def toValue (level : Nat) (node : Node) : Except Error Value := toValueWith (fun v => v) level node

end Node

end RecordFlow
