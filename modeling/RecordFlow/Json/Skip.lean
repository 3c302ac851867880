import RecordFlow.Json.Text

/-!
# Skipping JSON values

A value that nobody asks for is passed over without limit on its depth. The open brackets stand on
a stack, the innermost first.
-/

namespace RecordFlow.Json

/-- An open bracket. -/
inductive Bracket where
  | list | object
  deriving DecidableEq

namespace Bracket

/-- The byte that closes a bracket. -/
def closing : Bracket → UInt8
  | .list => byte ']'
  | .object => byte '\x7d'

/-- The fault of a text that ends inside a bracket. -/
def endFault : Bracket → Fault
  | .list => .endInList
  | .object => .endInObject

/-- The fault of something else where a comma or the closing bracket should stand. -/
def commaFault : Bracket → Fault
  | .list => .expectedCommaOrListEnd
  | .object => .expectedCommaOrObjectEnd

end Bracket

/-! ## Numbers -/

/-- Move past the exponent of a number, if it has one. -/
def skipExponent (c : Cursor) : Except ReadError Cursor :=
  if c.peek = some (byte 'e') ∨ c.peek = some (byte 'E') then
    let c := c.advance
    let c := if c.peek = some (byte '+') ∨ c.peek = some (byte '-') then c.advance else c
    match c.peek with
    | some b =>
    if isDigit b then .ok (c.skipRun isDigit) else .error (c.advance.failHere .invalidNumber)
    | none => .error (c.failHere .invalidNumber)
  else .ok c

/-- Move past the digits after the point of a number, if it has one. -/
def skipFraction (c : Cursor) : Except ReadError Cursor :=
  if c.peek = some (byte '.') then
    let c := c.advance
    if c.run isDigit = [] then .error (c.look.failAhead .invalidNumber) else .ok (c.skipRun isDigit)
  else .ok c

/-- Move past a number, the cursor being after its minus sign if it has one. -/
def skipNumber (c : Cursor) : Except ReadError Cursor := do
  let afterWhole ←
    match c.peek with
    | none => throw (c.failHere .invalidNumber)
    | some b =>
      if b = byte '0' then
        let after := c.advance.look
        match after.peek with
        | some d => if isDigit d then throw (after.failAhead .invalidNumber) else pure after
        | none => pure after
      else if isDigit b then pure (c.skipRun isDigit)
      else throw (c.advance.failHere .invalidNumber)
  skipExponent (← skipFraction afterWhole)

/-! ## Values -/

/-- What comes next: a value, or what may follow one; `true` if a comma may. -/
inductive SkipState where
  | value
  | after (comma : Bool)

/-- Move past the name of a field and its colon. -/
def skipName (c : Cursor) : Except ReadError Cursor :=
  let c := c.skipSpace
  match c.peek with
  | none => .error (c.failAhead .endInObject)
  | some b =>
    if b = byte '"' then do (← skipString c.advance).readColon
    else .error (c.failAhead .keyNotString)

/-- Begin a value: a scalar is passed over, and a bracket is opened. -/
def skipStart (c : Cursor) : Except ReadError (Option Bracket × Cursor) :=
  let c := c.skipSpace
  let scalar (after : Except ReadError Cursor) := after.map fun c => (none, c)
  match c.peek with
  | none => .error (c.failAhead .endInValue)
  | some b =>
    if b = byte 'n' then scalar (c.advance.readName "ull".toList)
    else if b = byte 't' then scalar (c.advance.readName "rue".toList)
    else if b = byte 'f' then scalar (c.advance.readName "alse".toList)
    else if b = byte '-' then scalar (skipNumber c.advance)
    else if isDigit b then scalar (skipNumber c)
    else if b = byte '"' then scalar (skipString c.advance)
    else if b = byte '[' then .ok (some .list, c.advance)
    else if b = byte '\x7b' then .ok (some .object, c.advance)
    else .error (c.failAhead .expectedValue)

/-- Go on skipping with brackets open, for at most so many steps. -/
def skipFrom : Nat → SkipState → List Bracket → Cursor → Except ReadError Cursor
  | 0, _, _, c => .error (c.failAhead .endInValue)
  | fuel + 1, .value, stack, c => do
    match ← skipStart c with
    | (some bracket, c) => skipFrom fuel (.after false) (bracket :: stack) c
    | (none, c) => skipFrom fuel (.after true) stack c
  | _ + 1, .after _, [], c => .ok c
  | fuel + 1, .after comma, bracket :: stack, c =>
    let c := c.skipSpace
    let next (c : Cursor) : Except ReadError Cursor := do
      let c ← if bracket = .object then skipName c else pure c
      skipFrom fuel .value (bracket :: stack) c
    match c.peek with
    | none => .error (c.failAhead bracket.endFault)
    | some b =>
      if comma && b == byte ',' then next c.advance
      else if b = bracket.closing then skipFrom fuel (.after true) stack c.advance
      else if comma then .error (c.failAhead bracket.commaFault)
      else next c

/-- Move past a value. -/
def skipValue (c : Cursor) : Except ReadError Cursor :=
  skipFrom (2 * c.rest.length + 2) .value [] c

end RecordFlow.Json
