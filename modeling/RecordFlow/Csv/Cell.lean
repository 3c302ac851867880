import RecordFlow.Error
import RecordFlow.Text.Blank

/-!
# CSV cells

The value of a cell, blanks at its ends left out: under a declared type (`Cell.read`), or the first
of null, integer, float, boolean and string that it can be (`Cell.infer`).
-/

namespace RecordFlow.Csv

namespace Cell

/-- A text in small letters, as far as the letters are ASCII. -/
def lower (text : List Char) : String := String.ofList (text.map Char.toLower)

/-- The words for true under a declared boolean. -/
def trueWords : List String := ["true", "t", "1", "yes", "y"]

/-- The words for false under a declared boolean. -/
def falseWords : List String := ["false", "f", "0", "no", "n"]

/-- The value of a trimmed text that is not empty, under a declared type. -/
def readTrimmed (dataType : DataType) (text : List Char) : Except CellFault Value :=
  match dataType with
  | .utf8 => .ok (.string (String.ofList text))
  | .int64 =>
    match Text.readInt64 text with
    | .ok n => .ok (.number (.ofIntClamped n))
    | .error fault => .error (.numeral fault)
  | .float64 =>
    match Text.readBinary64 text with
    | .ok (some x) => .ok (.number (.float x))
    | .ok none => .error .nonFinite
    | .error fault => .error (.numeral fault)
  | .bool =>
    if trueWords.contains (lower text) then .ok (.bool true)
    else if falseWords.contains (lower text) then .ok (.bool false)
    else .error .notBool

/-- The value of a cell under a declared type. A blank cell is null. -/
def read (dataType : DataType) (raw : String) : Except CellFault Value :=
  let text := Text.trim raw.toList
  if text = [] then .ok .null else readTrimmed dataType text

/-- The value of a trimmed text that is not empty, by what it looks like. -/
def inferTrimmed (text : List Char) : Value :=
  match Text.readInt64 text, Text.readBinary64 text with
  | .ok n, _ => .number (.ofIntClamped n)
  | _, .ok (some x) => .number (.float x)
  | _, _ =>
    if lower text = "true" then .bool true
    else if lower text = "false" then .bool false
    else .string (String.ofList text)

/-- The value of a cell by what it looks like. A blank cell is null. -/
def infer (raw : String) : Value :=
  let text := Text.trim raw.toList
  if text = [] then .null else inferTrimmed text

end Cell

end RecordFlow.Csv
