import RecordFlow.Text.Quoted

/-!
# Descriptions

The layout of descriptions: a name with named parts in braces, a name with one part in
parentheses, and lists in brackets.
-/

namespace RecordFlow.Text

/-- Parts with commas between them. -/
def commaSeparated (parts : List String) : String := ", ".intercalate parts

/-- A name and its named parts. -/
def describeParts (name : String) (parts : List (String × String)) : String :=
  name ++ " \x7b " ++ commaSeparated (parts.map fun part => part.1 ++ ": " ++ part.2) ++ " \x7d"

/-- A name around one part. -/
def describeAround (name part : String) : String := name ++ "(" ++ part ++ ")"

/-- The parts of a list. -/
def describeList (parts : List String) : String := "[" ++ commaSeparated parts ++ "]"

/-- A part that may be missing. -/
def describeOption : Option String → String
  | some part => describeAround "Some" part
  | none => "None"

/-- A truth value. -/
def describeBool (b : Bool) : String := if b then "true" else "false"

end RecordFlow.Text
