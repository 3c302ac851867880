import RecordFlow.Csv.Error
import RecordFlow.Text.Utf8

/-!
# CSV tables

A CSV text is a sequence of records that end at a carriage return, at a line feed or at the end of
the text; the ends of lines before a record are skipped, and so are empty lines. A field may stand
between quotes, where a doubled quote is a quote and all else is kept. The first record names the
columns.
-/

namespace RecordFlow.Csv

/-- How a CSV text is read. -/
structure Settings where
  delimiter : UInt8 := UInt8.ofNat ','.toNat
  /-- Whether records may differ in length. -/
  flexible : Bool := false
  /-- Whether the record that names the columns is no row itself. -/
  hasHeaders : Bool := true

/-- The byte of a quote. -/
def quoteByte : UInt8 := UInt8.ofNat '"'.toNat

/-- A byte that ends a record. -/
def endsRecord (b : UInt8) : Bool := b == UInt8.ofNat '\r'.toNat || b == UInt8.ofNat '\n'.toNat

/-! ## Fields -/

/-- Where a field stands: at its start, inside it, between quotes, or after a quote that either
closes the field or is doubled. -/
inductive FieldState where
  | start | plain | quoted | afterQuote

/-- The rest of a record: its fields and the bytes after the one that ends it. The bytes of the
field begun and the fields before it stand in reverse. -/
def scanRecord (delimiter : UInt8) : FieldState → List UInt8 → List (List UInt8) → List UInt8 →
    List (List UInt8) × List UInt8
  | _, field, fields, [] => ((field.reverse :: fields).reverse, [])
  | .quoted, field, fields, b :: rest =>
    if b = quoteByte then scanRecord delimiter .afterQuote field fields rest
    else scanRecord delimiter .quoted (b :: field) fields rest
  | .afterQuote, field, fields, b :: rest =>
    if b = quoteByte then scanRecord delimiter .quoted (b :: field) fields rest
    else if b = delimiter then scanRecord delimiter .start [] (field.reverse :: fields) rest
    else if endsRecord b then ((field.reverse :: fields).reverse, rest)
    else scanRecord delimiter .plain (b :: field) fields rest
  | .start, field, fields, b :: rest =>
    if b = quoteByte then scanRecord delimiter .quoted field fields rest
    else if b = delimiter then scanRecord delimiter .start [] (field.reverse :: fields) rest
    else if endsRecord b then ((field.reverse :: fields).reverse, rest)
    else scanRecord delimiter .plain (b :: field) fields rest
  | .plain, field, fields, b :: rest =>
    if b = delimiter then scanRecord delimiter .start [] (field.reverse :: fields) rest
    else if endsRecord b then ((field.reverse :: fields).reverse, rest)
    else scanRecord delimiter .plain (b :: field) fields rest

/-! ## Records -/

/-- A record as bytes, and where the search for it began. -/
structure RawRecord where
  position : Position
  fields : List (List UInt8)

/-- The position after bytes that held one more record. -/
def Position.afterRecord (p : Position) (bytes : List UInt8) : Position :=
  ⟨p.record + 1, p.line + bytes.countP (· == UInt8.ofNat '\n'.toNat), p.byte + bytes.length⟩

/-- At most so many records from a position on. The bytes of a mark come before those of the text
and belong to no record. -/
def scanFrom (delimiter : UInt8) : Nat → Position → List UInt8 → List UInt8 → List RawRecord
  | 0, _, _, _ => []
  | fuel + 1, p, mark, bytes =>
    match bytes.dropWhile endsRecord with
    | [] => []
    | b :: rest =>
      let (fields, left) := scanRecord delimiter .start [] [] (b :: rest)
      let used := mark ++ bytes.take (bytes.length - left.length)
      ⟨p, fields⟩ :: scanFrom delimiter fuel (p.afterRecord used) [] left

/-- The byte order mark that a text may start with. -/
def byteOrderMark : List UInt8 := [0xEF, 0xBB, 0xBF]

/-- The records of a text. A byte order mark at the start belongs to none of them. -/
def scan (delimiter : UInt8) (bytes : List UInt8) : List RawRecord :=
  if byteOrderMark.isPrefixOf bytes then
    scanFrom delimiter bytes.length ⟨0, 1, 0⟩ byteOrderMark (bytes.drop byteOrderMark.length)
  else scanFrom delimiter bytes.length ⟨0, 1, 0⟩ [] bytes

/-- The fields of a record as text, counting fields from a number. -/
def decodeFields (p : Position) : Nat → List (List UInt8) → Except ReadError (List String)
  | _, [] => .ok []
  | i, field :: rest =>
    match Text.decode field with
    | .error validUpTo => .error (.invalidUtf8 p i validUpTo)
    | .ok chars => do return String.ofList chars :: (← decodeFields p (i + 1) rest)

/-- A record as text. Unless lengths may differ, it must be as long as expected; a wrong length
counts before a field that is not UTF-8. -/
def RawRecord.decode (settings : Settings) (expected : Nat) (r : RawRecord) :
    Except ReadError (List String) :=
  if !settings.flexible && r.fields.length != expected then
    .error (.unequalLengths r.position r.fields.length expected)
  else decodeFields r.position 0 r.fields

/-! ## Tables -/

/-- The names of the columns and the rows, each of which may be refused. -/
structure Table where
  headers : List String
  rows : List (Except ReadError (List String))

/-- The table of a CSV text. An empty text is a table without columns. -/
def readTable (settings : Settings) (bytes : List UInt8) : Except ReadError Table :=
  match scan settings.delimiter bytes with
  | [] => .ok ⟨[], []⟩
  | first :: rest => do
    let headers ← decodeFields first.position 0 first.fields
    let records := if settings.hasHeaders then rest else first :: rest
    return ⟨headers, records.map (RawRecord.decode settings first.fields.length)⟩

end RecordFlow.Csv
