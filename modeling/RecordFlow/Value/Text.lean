import RecordFlow.Value
import RecordFlow.Decimal

/-!
# Values as text

The compact JSON text of a value: no blanks, the fields of an object in their order, and only
quotes, backslashes and control characters escaped in strings.
-/

namespace RecordFlow

/-- A character inside a JSON string. -/
def jsonChar (c : Char) : List Char :=
  match c with
  | '"' => ['\\', '"']
  | '\\' => ['\\', '\\']
  | '\x08' => ['\\', 'b']
  | '\t' => ['\\', 't']
  | '\n' => ['\\', 'n']
  | '\x0c' => ['\\', 'f']
  | '\r' => ['\\', 'r']
  | _ =>
    if c.toNat < 0x20 then
      "\\u00".toList ++ [Nat.digitChar (c.toNat / 16), Nat.digitChar (c.toNat % 16)]
    else [c]

/-- A JSON string. -/
def jsonString (s : String) : List Char := '"' :: s.toList.flatMap jsonChar ++ ['"']

/-- The text of a number. -/
def Number.text : Number → String
  | .int n _ => toString n
  | .float x => x.text

namespace Value

mutual

/-- The characters of the compact JSON text of a value. -/
def jsonChars : Value → List Char
  | .null => "null".toList
  | .bool b => (if b then "true" else "false").toList
  | .number n => n.text.toList
  | .string s => jsonString s
  | .array items => '[' :: jsonItems items ++ [']']
  | .object fields => '\x7b' :: jsonFields fields ++ ['\x7d']

/-- The items of an array with commas between them. -/
def jsonItems : List Value → List Char
  | [] => []
  | [v] => jsonChars v
  | v :: rest => jsonChars v ++ ',' :: jsonItems rest

/-- The fields of an object with commas between them. -/
def jsonFields : List (String × Value) → List Char
  | [] => []
  | [(name, v)] => jsonString name ++ ':' :: jsonChars v
  | (name, v) :: rest => jsonString name ++ ':' :: jsonChars v ++ ',' :: jsonFields rest

end

/-- The compact JSON text of a value. -/
def json (v : Value) : String := String.ofList v.jsonChars

end Value

end RecordFlow
