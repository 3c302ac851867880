import RecordFlow.Json.Document
import RecordFlow.Json.Skip
import RecordFlow.Schema

/-!
# Reading schemas

A schema is read from a JSON text as it streams in. It is an object with a list of fields, and a
field an object with a name and a data type; each may also be an array of its parts. Fields of
other names are passed over. A fault of what was read, rather than of the text, gets its position
only after the reader has tried to close the bracket around it (`Visit.close`).
-/

namespace RecordFlow.Schema

open RecordFlow.Json

/-! ## Visits -/

/-- What reading the inside of a bracket comes to: a value, a fault that has no position yet, or
an error. -/
inductive Visit (α : Type) where
  | done (value : α) (c : Cursor)
  | refused (fault : Fault) (c : Cursor)
  | failed (error : ReadError)

namespace Visit

variable {α β : Type}

/-- Something read that cannot be refused. -/
def ofRead : Except ReadError (α × Cursor) → Visit α
  | .ok (a, c) => .done a c
  | .error e => .failed e

/-- Go on with what was read. -/
def andThen (v : Visit α) (next : α → Cursor → Visit β) : Visit β :=
  match v with
  | .done a c => next a c
  | .refused fault c => .refused fault c
  | .failed e => .failed e

/-- Move past the closing byte of a bracket: the cursor reached, and the error if something else
stands there. -/
def closeWith (bracket : Bracket) (c : Cursor) : Cursor × Option ReadError :=
  let c := c.skipSpace
  match c.peek with
  | none => (c, some (c.failAhead bracket.endFault))
  | some b =>
    if b = bracket.closing then (c.advance, none)
    else if b = byte ',' then
      match bracket with
      | .object => (c, some (c.failAhead .trailingComma))
      | .list =>
        let c := c.advance.skipSpace
        let fault := if c.peek = some (byte ']') then Fault.trailingComma else .trailingCharacters
        (c, some (c.failAhead fault))
    else (c, some (c.failAhead .trailingCharacters))

/-- Close the bracket around what was read. A fault without a position gets the one reached then. -/
def close (bracket : Bracket) : Visit α → Except ReadError (α × Cursor)
  | .done a c =>
    match closeWith bracket c with
    | (c, none) => .ok (a, c)
    | (_, some e) => .error e
  | .refused fault c => .error ((closeWith bracket c).1.failHere fault)
  | .failed e => .error e

end Visit

/-! ## Parts -/

/-- The error of a value of another type than wanted, the cursor being at the value. -/
def wrongType (wanted : String) (c : Cursor) : ReadError :=
  let found (f : Found) (c : Cursor) : ReadError := c.failHere (.wrongType f wanted)
  let name (f : Found) (rest : String) : ReadError :=
    match c.advance.readName rest.toList with
    | .ok c => found f c
    | .error e => e
  let number (read : Except ReadError (Number × Cursor)) : ReadError :=
    match read with
    | .ok (.int n _, c) => found (.integer n) c
    | .ok (.float x, c) => found (.float x.text) c
    | .error e => e
  match c.peek with
  | none => c.failAhead .expectedValue
  | some b =>
    if b = byte 'n' then name .null "ull"
    else if b = byte 't' then name (.bool true) "rue"
    else if b = byte 'f' then name (.bool false) "alse"
    else if b = byte '-' then number (readNumber true c.advance)
    else if isDigit b then number (readNumber false c)
    else if b = byte '"' then
      match readString c.advance with
      | .ok (s, c) => found (.string s) c
      | .error e => e
    else if b = byte '[' then found .sequence c
    else if b = byte '\x7b' then found .map c
    else c.failAhead .expectedValue

/-- A string, for a place that wants one. -/
def readText (wanted : String) (c : Cursor) : Except ReadError (String × Cursor) :=
  let c := c.skipSpace
  match c.peek with
  | none => .error (c.failAhead .endInValue)
  | some b => if b = byte '"' then readString c.advance else .error (wrongType wanted c)

/-- The data type of a name, the cursor being at its opening quote. -/
def readTypeName (c : Cursor) : Except ReadError (DataType × Cursor) := do
  let (name, c) ← readString c.advance
  match DataType.ofName? name with
  | some t => return (t, c)
  | none => throw (c.failHere (.unknownVariant name (DataType.all.map DataType.name)))

/-- A null, for a place that wants nothing. -/
def readUnit (c : Cursor) : Except ReadError Cursor :=
  let c := c.skipSpace
  match c.peek with
  | none => .error (c.failAhead .endInValue)
  | some b =>
    if b = byte 'n' then c.advance.readName "ull".toList else .error (wrongType "unit" c)

/-- A data type: its name, or an object of its name and null. -/
def readDataType (c : Cursor) : Except ReadError (DataType × Cursor) :=
  let c := c.skipSpace
  match c.peek with
  | none => .error (c.failAhead .endInValue)
  | some b =>
    if b = byte '"' then readTypeName c
    else if b = byte '\x7b' then do
      match ← c.advance.nextField false with
      | (false, c) => throw (c.failAhead .expectedValue)
      | (true, c) =>
        let (t, c) ← readTypeName c
        let c := (← readUnit (← c.readColon)).skipSpace
        match c.peek with
        | none => throw (c.failHere .endInObject)
        | some b =>
          if b = byte '\x7d' then return (t, c.advance) else throw (c.failHere .expectedValue)
    else .error (c.failAhead .expectedValue)

/-! ## Objects and arrays of parts -/

/-- The parts of an object in any order, given what is done with the part of a name. -/
def visitParts {σ : Type} (part : String → σ → Cursor → Visit σ) :
    Nat → Bool → σ → Cursor → Visit σ
  | 0, _, _, c => .failed (c.failAhead .endInObject)
  | fuel + 1, started, state, c =>
    match c.nextField started with
    | .error e => .failed e
    | .ok (false, c) => .done state c
    | .ok (true, c) =>
      (Visit.ofRead (readString c.advance)).andThen fun name c =>
        (part name state c).andThen fun state c => visitParts part fuel true state c

/-- The value of a part that was not read before; a second one is refused before its value. -/
def visitPart {α σ : Type} (name : String) (old : Option α)
    (read : Cursor → Except ReadError (α × Cursor)) (set : α → σ) (c : Cursor) : Visit σ :=
  if old.isSome then .refused (.duplicateField name) c
  else (Visit.ofRead (do read (← c.readColon))).andThen fun a c => .done (set a) c

/-- A part that nobody asks for. -/
def visitOther {σ : Type} (state : σ) (c : Cursor) : Visit σ :=
  Visit.ofRead (do return (state, ← skipValue (← c.readColon)))

/-- The next part of an array of parts, of which so many were read. -/
def visitElement {α : Type} (count : Nat) (wanted : String)
    (read : Cursor → Except ReadError (α × Cursor)) (c : Cursor) : Visit α :=
  match c.nextItem (0 < count) with
  | .error e => .failed e
  | .ok (false, c) => .refused (.wrongLength count wanted) c
  | .ok (true, c) => Visit.ofRead (read c)

/-- A structure: an object or an array of its parts. -/
def readStructure {α : Type} (wanted : String) (object array : Cursor → Visit α) (c : Cursor) :
    Except ReadError (α × Cursor) :=
  let c := c.skipSpace
  match c.peek with
  | none => .error (c.failAhead .endInValue)
  | some b =>
    if b = byte '[' then (array c.advance).close .list
    else if b = byte '\x7b' then (object c.advance).close .object
    else .error (wrongType wanted c)

/-! ## Schemas -/

/-- A field as an object. -/
def visitFieldObject (c : Cursor) : Visit Field :=
  let part (key : String) (state : Option String × Option DataType) (c : Cursor) :=
    if key = "name" then
      visitPart key state.1 (readText "a string") (fun name => (some name, state.2)) c
    else if key = "data_type" then
      visitPart key state.2 readDataType (fun t => (state.1, some t)) c
    else visitOther state c
  (visitParts part (c.rest.length + 1) false (none, none) c).andThen fun state c =>
    match state with
    | (some name, some t) => .done ⟨name, t⟩ c
    | (none, _) => .refused (.missingField "name") c
    | (some _, none) => .refused (.missingField "data_type") c

/-- A field as an array. -/
def visitFieldArray (c : Cursor) : Visit Field :=
  let wanted := "struct Field with 2 elements"
  (visitElement 0 wanted (readText "a string") c).andThen fun name c =>
    (visitElement 1 wanted readDataType c).andThen fun t c => .done ⟨name, t⟩ c

/-- A field. -/
def readField (c : Cursor) : Except ReadError (Field × Cursor) :=
  readStructure "struct Field" visitFieldObject visitFieldArray c

/-- The list of fields. -/
def readFieldList (c : Cursor) : Except ReadError (List Field × Cursor) :=
  let c := c.skipSpace
  match c.peek with
  | none => .error (c.failAhead .endInValue)
  | some b =>
    if b = byte '[' then readItems readField c.advance else .error (wrongType "a sequence" c)

/-- A schema as an object. -/
def visitSchemaObject (c : Cursor) : Visit Schema :=
  let part (key : String) (state : Option (List Field)) (c : Cursor) :=
    if key = "fields" then visitPart key state readFieldList some c else visitOther state c
  (visitParts part (c.rest.length + 1) false none c).andThen fun state c =>
    match state with
    | some fields => .done ⟨fields⟩ c
    | none => .refused (.missingField "fields") c

/-- A schema as an array. -/
def visitSchemaArray (c : Cursor) : Visit Schema :=
  (visitElement 0 "struct Schema with 1 element" readFieldList c).andThen fun fields c =>
    .done ⟨fields⟩ c

/-- The schema that a text describes. -/
def ofBytes (bytes : List UInt8) : Except ReadError Schema := do
  let start : Cursor := .ofStream bytes
  let (schema, c) ← readStructure "struct Schema" visitSchemaObject visitSchemaArray start
  let c := c.skipSpace
  match c.peek with
  | none => return schema
  | some _ => throw (c.failAhead .trailingCharacters)

end RecordFlow.Schema
