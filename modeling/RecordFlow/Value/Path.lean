import RecordFlow.Value
import RecordFlow.Text.Split
import RecordFlow.Text.Numeral

/-!
# Dot paths

A path such as `user.tags.0` walks from a record through object fields and array elements. A step
that leads nowhere gives null, and null stays null on every further step.
-/

namespace RecordFlow

/-- The position that a path segment names in an array: decimal digits, with a plus sign or
without. -/
def Path.position? (segment : List Char) : Option Nat :=
  let digits := match segment with
    | '+' :: rest => rest
    | _ => segment
  if digits ≠ [] ∧ digits.all Char.isDigit then
    some (Text.digitsValue digits)
  else none

/-- The segments of a path. The empty path has none. -/
def Path.segments (path : String) : List (List Char) :=
  if path.toList = [] then [] else Text.splitOn '.' path.toList

namespace Value

/-- One step of a path: the field or the array element that the segment names, else null. -/
def child (v : Value) (segment : List Char) : Value :=
  match v with
  | .object fields => (Fields.get? fields (String.ofList segment)).getD .null
  | .array items =>
    match Path.position? segment with
    | some i => items[i]?.getD .null
    | none => .null
  | _ => .null

/-- The value at a path of a record: null where the path leads nowhere, the record itself for the
empty path. -/
def atPath (record : Value) (path : String) : Value :=
  (Path.segments path).foldl child record

/-- Whether the last segment of a path names a field of the object that the segments before it
lead to. -/
def hasField (record : Value) (path : String) : Bool :=
  let (parent, leaf) := match Text.splitLast? '.' path.toList with
    | some (parent, leaf) => (record.atPath (String.ofList parent), String.ofList leaf)
    | none => (record, path)
  match parent with
  | .object fields => Fields.contains fields leaf
  | _ => false

end Value

end RecordFlow
