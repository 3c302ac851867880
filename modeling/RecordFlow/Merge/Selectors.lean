import RecordFlow.Key
import RecordFlow.Text.Description
import RecordFlow.Value.Path

/-!
# Selectors

A left and a right row match when the keys that the selectors give them are equal. Selectors made
of pairs of paths compare the values at those paths; no pairs make every two rows match.
-/

namespace RecordFlow.Merge

/-- The paths of a left and a right row whose values are compared. -/
structure PathPair where
  left : String
  right : String
  deriving DecidableEq

/-- The comparison that a pair stands for. -/
def PathPair.text (p : PathPair) : String := "l." ++ p.left ++ " == r." ++ p.right

/-- What the rows of each side are matched by, and a description of it. -/
structure Selectors where
  left : Value → Key
  right : Value → Key
  description : String

namespace Selectors

/-- The key of a record under paths: the value at a single path, else the list of values. -/
def pathsKey (paths : List String) (record : Value) : Key :=
  match paths with
  | [path] => .ofValue (record.atPath path)
  | _ => .composite (paths.map fun path => .ofValue (record.atPath path))

/-- Rows match when the values at every pair of paths are equal. -/
def ofPairs (pairs : List PathPair) : Selectors where
  left := pathsKey (pairs.map PathPair.left)
  right := pathsKey (pairs.map PathPair.right)
  description := " && ".intercalate (pairs.map PathPair.text)

/-- Rows match when the values at the same paths are equal. -/
def same (paths : List String) : Selectors := ofPairs (paths.map fun path => ⟨path, path⟩)

/-- Rows match when the values that two functions give them are equal. -/
def custom (left right : Value → Value) : Selectors where
  left record := .ofValue (left record)
  right record := .ofValue (right record)
  description := "custom"

/-- Rows match when they are equal. -/
def wholeRecord : Selectors := ⟨Key.ofValue, Key.ofValue, "whole record"⟩

/-- The description of selectors. -/
def describe (s : Selectors) : String :=
  Text.describeParts "KeySelectors" [("on", Text.quoted s.description)]

end Selectors

end RecordFlow.Merge
