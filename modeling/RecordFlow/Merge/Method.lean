import RecordFlow.Error
import RecordFlow.Text.Blank
import RecordFlow.Text.Description

/-!
# Merge methods

A merge method is written as two keywords with blanks between them. `Method.parse` reads one, and
`Method.combine` makes the output row of a pair of rows of which at most one is missing.
-/

namespace RecordFlow.Merge

/-! ## Reading -/

/-- The token of a keyword, spelled exactly. -/
def Token.parse (keyword : String) : Except Error Token :=
  match Token.ofName? keyword with
  | some t => .ok t
  | none => .error (.unknownMergeKeyword keyword)

namespace Method

/-- The method of two tokens, unless it would stack unmatched rows. -/
def ofTokens (onMatched onUnmatched : Token) : Except Error Method :=
  if h : onUnmatched ≠ .stack then .ok ⟨onMatched, onUnmatched, h⟩ else .error .stackOnUnmatched

/-- The method that a text names: two keywords with blanks around and between them. -/
def parse (text : String) : Except Error Method :=
  match Text.words text.toList with
  | [onMatched, onUnmatched] => do
    let m ← Token.parse (String.ofList onMatched)
    let u ← Token.parse (String.ofList onUnmatched)
    ofTokens m u
  | _ => .error (.malformedMergeMethod text)

/-! ## Combining rows -/

/-- The output row of a left and a right row. -/
def combineMatched (t : Token) (l r : Value) : Option Value :=
  match t with
  | .both => some (Value.overlay r l)
  | .thob => some (Value.overlay l r)
  | .left => some l
  | .right => some r
  | .null => none
  | .stack => some (.array [l, r])

/-- The output row of a row that only one side has. -/
def combineUnmatched (t : Token) (l r : Option Value) : Option Value :=
  match t with
  | .both | .thob => l.or r
  | .left => l
  | .right => r
  | .null | .stack => none

/-- The output row of a pair, unless the pair is dropped. -/
def combine (m : Method) (l r : Option Value) : Option Value :=
  match l, r with
  | some l, some r => combineMatched m.onMatched l r
  | l, r => combineUnmatched m.onUnmatched l r

/-- The description of a method. -/
def describe (m : Method) : String :=
  Text.describeParts "MergeMethod"
    [("on_matched", m.onMatched.describe), ("on_unmatched", m.onUnmatched.describe)]

end Method

end RecordFlow.Merge
