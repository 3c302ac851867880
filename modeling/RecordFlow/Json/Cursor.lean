import RecordFlow.Json.Error

/-!
# Reading position

A `Cursor` holds the bytes that are still to be read and the position reached. A text is read
either as a whole or as a stream. They differ only in the column of some errors: in a stream a
byte that was looked at counts as read.
-/

namespace RecordFlow.Json

/-- The bytes that are still to be read and the position before them. -/
structure Cursor where
  rest : List UInt8
  position : Position
  /-- Whether the next byte has been looked at. -/
  looked : Bool
  /-- Whether a byte looked at counts as read. -/
  streaming : Bool

namespace Cursor

/-- The start of a text that is read as a whole. -/
def ofText (bytes : List UInt8) : Cursor := ⟨bytes, .start, false, false⟩

/-- The start of a text that is read as a stream. -/
def ofStream (bytes : List UInt8) : Cursor := ⟨bytes, .start, false, true⟩

/-- The next byte. -/
def peek (c : Cursor) : Option UInt8 := c.rest.head?

/-- Look at the next byte. -/
def look (c : Cursor) : Cursor := { c with looked := true }

/-- Move past the next byte. -/
def advance (c : Cursor) : Cursor :=
  match c.rest with
  | [] => { c with looked := false }
  | b :: rest => { c with rest := rest, position := c.position.after b, looked := false }

/-- Move past bytes that the text goes on with. -/
def advanceOver (c : Cursor) (bytes : List UInt8) : Cursor :=
  { c with
    rest := c.rest.drop bytes.length
    position := c.position.afterAll bytes
    looked := false }

/-- The bytes from here on that pass a test. -/
def run (p : UInt8 → Bool) (c : Cursor) : List UInt8 := c.rest.takeWhile p

/-- Move past the bytes that pass a test, and look at the one that does not. -/
def skipRun (p : UInt8 → Bool) (c : Cursor) : Cursor := (c.advanceOver (c.run p)).look

/-- The position after the next byte, if there is one. -/
def positionAhead (c : Cursor) : Position := c.advance.position

/-- The error of a fault in the byte read last. In a stream a byte looked at counts as read. -/
def failHere (c : Cursor) (fault : Fault) : ReadError :=
  ⟨fault, if c.streaming && c.looked then c.positionAhead else c.position⟩

/-- The error of a fault in the next byte. -/
def failAhead (c : Cursor) (fault : Fault) : ReadError := ⟨fault, c.positionAhead⟩

end Cursor

/-- The byte of an ASCII character. -/
def byte (c : Char) : UInt8 := UInt8.ofNat c.toNat

/-- A space, a tab, a line feed or a carriage return. -/
def isSpace (b : UInt8) : Bool :=
  b == byte ' ' || b == byte '\t' || b == byte '\n' || b == byte '\r'

/-- A decimal digit. -/
def isDigit (b : UInt8) : Bool := byte '0' ≤ b && b ≤ byte '9'

namespace Cursor

/-- Move past blanks and look at the byte after them. -/
def skipSpace (c : Cursor) : Cursor := c.skipRun isSpace

/-- Move past the rest of a name such as `true`. -/
def readName (c : Cursor) : List Char → Except ReadError Cursor
  | [] => .ok c
  | expected :: name =>
    match c.peek with
    | none => .error (c.failHere .endInValue)
    | some b =>
      if b = byte expected then c.advance.readName name
      else .error (c.advance.failHere .expectedIdent)

/-- Move past the colon between the name and the value of a field. -/
def readColon (c : Cursor) : Except ReadError Cursor :=
  let c := c.skipSpace
  match c.peek with
  | none => .error (c.failAhead .endInObject)
  | some b => if b = byte ':' then .ok c.advance else .error (c.failAhead .expectedColon)

/-- Move to the next item of an array, after its opening bracket or, if any was read, after an
item: whether there is one, and the cursor at it or at the closing bracket. -/
def nextItem (started : Bool) (c : Cursor) : Except ReadError (Bool × Cursor) :=
  let c := c.skipSpace
  match c.peek with
  | none => .error (c.failAhead .endInList)
  | some b =>
    if b = byte ']' then .ok (false, c)
    else if !started then .ok (true, c)
    else if b = byte ',' then
      let c := c.advance.skipSpace
      match c.peek with
      | none => .error (c.failAhead .endInValue)
      | some b => if b = byte ']' then .error (c.failAhead .trailingComma) else .ok (true, c)
    else .error (c.failAhead .expectedCommaOrListEnd)

/-- Move to the next field of an object, after its opening brace or, if any was read, after a
field: whether there is one, and the cursor at the quote that opens its name or at the closing
brace. -/
def nextField (started : Bool) (c : Cursor) : Except ReadError (Bool × Cursor) :=
  let c := c.skipSpace
  match c.peek with
  | none => .error (c.failAhead .endInObject)
  | some b =>
    if b = byte '\x7d' then .ok (false, c)
    else if !started then
      if b = byte '"' then .ok (true, c) else .error (c.failAhead .keyNotString)
    else if b = byte ',' then
      let c := c.advance.skipSpace
      match c.peek with
      | none => .error (c.failAhead .endInValue)
      | some b =>
        if b = byte '"' then .ok (true, c)
        else if b = byte '\x7d' then .error (c.failAhead .trailingComma)
        else .error (c.failAhead .keyNotString)
    else .error (c.failAhead .expectedCommaOrObjectEnd)

end Cursor

end RecordFlow.Json
