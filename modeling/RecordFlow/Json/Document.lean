import RecordFlow.Json.Number
import RecordFlow.Json.Text
import RecordFlow.Value

/-!
# JSON documents

Reading a JSON text as a value. Brackets nest at most as deep as a limit says, the last of several
fields of one name counts, and nothing but blanks may follow the value. This is one reader among
those that loading takes (`Load.Readers`).
-/

namespace RecordFlow.Json

/-- How deep brackets may nest in a document. -/
def depthLimit : Nat := 127

/-! ## Items and fields -/

/-- The rest of an array and its closing bracket, given how an item is read. The items read so far
stand with the last first. -/
def readItemsFrom {α : Type} (readItem : Cursor → Except ReadError (α × Cursor)) :
    Nat → List α → Cursor → Except ReadError (List α × Cursor)
  | 0, _, c => .error (c.failAhead .endInList)
  | fuel + 1, items, c => do
    match ← c.nextItem (!items.isEmpty) with
    | (false, c) => return (items.reverse, c.advance)
    | (true, c) =>
      let (item, c) ← readItem c
      readItemsFrom readItem fuel (item :: items) c

/-- The items of an array, given how one is read, the cursor being after the opening bracket. -/
def readItems {α : Type} (readItem : Cursor → Except ReadError (α × Cursor)) (c : Cursor) :
    Except ReadError (List α × Cursor) :=
  readItemsFrom readItem (c.rest.length + 1) [] c

/-- The rest of an object and its closing brace, given how a value is read. A field takes the
place of an earlier one of its name. -/
def readFieldsFrom (readItem : Cursor → Except ReadError (Value × Cursor)) :
    Nat → Bool → Fields Value → Cursor → Except ReadError (Fields Value × Cursor)
  | 0, _, _, c => .error (c.failAhead .endInObject)
  | fuel + 1, started, fields, c => do
    match ← c.nextField started with
    | (false, c) => return (fields, c.advance)
    | (true, c) =>
      let (name, c) ← readString c.advance
      let (item, c) ← readItem (← c.readColon)
      readFieldsFrom readItem fuel true (fields.insert name item) c

/-- The fields of an object, given how a value is read, the cursor being after the opening
brace. -/
def readFields (readItem : Cursor → Except ReadError (Value × Cursor)) (c : Cursor) :
    Except ReadError (Fields Value × Cursor) :=
  readFieldsFrom readItem (c.rest.length + 1) false [] c

/-! ## Values -/

/-- A value, given how values inside its brackets are read if brackets may stand here. -/
def readValueWith (nested : Option (Cursor → Except ReadError (Value × Cursor))) (c : Cursor) :
    Except ReadError (Value × Cursor) :=
  let c := c.skipSpace
  match c.peek with
  | none => .error (c.failAhead .endInValue)
  | some b =>
    if b = byte 'n' then do return (.null, ← c.advance.readName "ull".toList)
    else if b = byte 't' then do return (.bool true, ← c.advance.readName "rue".toList)
    else if b = byte 'f' then do return (.bool false, ← c.advance.readName "alse".toList)
    else if b = byte '-' then do
      let (n, c) ← readNumber true c.advance
      return (.number n, c)
    else if isDigit b then do
      let (n, c) ← readNumber false c
      return (.number n, c)
    else if b = byte '"' then do
      let (s, c) ← readString c.advance
      return (.string s, c)
    else if b = byte '[' then
      match nested with
      | none => .error (c.failAhead .tooDeep)
      | some readItem => do
        let (items, c) ← readItems readItem c.advance
        return (.array items, c)
    else if b = byte '\x7b' then
      match nested with
      | none => .error (c.failAhead .tooDeep)
      | some readItem => do
        let (fields, c) ← readFields readItem c.advance
        return (.object fields, c)
    else .error (c.failAhead .expectedValue)

/-- A value whose brackets nest at most so deep. -/
def readValue : Nat → Cursor → Except ReadError (Value × Cursor)
  | 0, c => readValueWith none c
  | depth + 1, c => readValueWith (some (readValue depth)) c

/-- The value of a text whose brackets nest at most so deep. -/
def readWithin (depth : Nat) (bytes : List UInt8) : Except ReadError Value := do
  let (v, c) ← readValue depth (.ofText bytes)
  let c := c.skipSpace
  match c.peek with
  | none => return v
  | some _ => throw (c.failAhead .trailingCharacters)

/-- The value of a JSON document. -/
def readDocument (text : List Char) : Except ReadError Value :=
  readWithin depthLimit (Text.encode text)

end RecordFlow.Json
