/-!
# Merge keywords

A merge method is a pair of tokens: one says what a matched pair of rows becomes, the other what
becomes of a row that only one side has. Stacking needs both rows, so it is no choice for the
second (`Method.onUnmatched_ne_stack`).
-/

namespace RecordFlow.Merge

/-- What to make of the rows of both sides. -/
inductive Token where
  | both | thob | left | right | null | stack
  deriving DecidableEq

namespace Token

/-- Every token. -/
def all : List Token := [.both, .thob, .left, .right, .null, .stack]

/-- The keyword of a token. -/
def name : Token → String
  | .both => "both"
  | .thob => "thob"
  | .left => "left"
  | .right => "right"
  | .null => "null"
  | .stack => "stack"

/-- The name of a token in descriptions. -/
def describe : Token → String
  | .both => "Both"
  | .thob => "Thob"
  | .left => "Left"
  | .right => "Right"
  | .null => "Null"
  | .stack => "Stack"

/-- The token of a keyword. -/
def ofName? (name : String) : Option Token := all.find? (·.name == name)

/-- Every keyword, for messages. -/
def names : String := ", ".intercalate (all.map name)

end Token

/-- What becomes of matched and of unmatched rows. -/
structure Method where
  onMatched : Token
  onUnmatched : Token
  onUnmatched_ne_stack : onUnmatched ≠ .stack
  deriving DecidableEq

namespace Method

/-- Matched rows only, fields of the left row first. -/
def inner : Method := ⟨.both, .null, by decide⟩

/-- Also the rows that only the left side has. -/
def leftOuter : Method := ⟨.both, .left, by decide⟩

/-- Also the rows that only the right side has. -/
def rightOuter : Method := ⟨.both, .right, by decide⟩

/-- Also the rows that only one side has. -/
def fullOuter : Method := ⟨.both, .both, by decide⟩

/-- The two keywords with a space between them. -/
def text (m : Method) : String := m.onMatched.name ++ " " ++ m.onUnmatched.name

end Method

end RecordFlow.Merge
