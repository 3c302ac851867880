import RecordFlow.Json.Cursor
import RecordFlow.Text.Utf8

/-!
# JSON strings

Reading what stands between quotes: characters as they are, escapes, and pairs of hexadecimal
escapes for characters beyond the first 65536. What encodes no character is found only at the end
of a string, after all other faults. A string that is skipped is only held to be closed and to have
escapes of the right form.
-/

namespace RecordFlow.Json

/-- The value of a hexadecimal digit. -/
def hexValue? (b : UInt8) : Option Nat :=
  if isDigit b then some (b.toNat - '0'.toNat)
  else if byte 'a' ≤ b && b ≤ byte 'f' then some (b.toNat - 'a'.toNat + 10)
  else if byte 'A' ≤ b && b ≤ byte 'F' then some (b.toNat - 'A'.toNat + 10)
  else none

/-- The number that hexadecimal digits denote. -/
def hexNumber? (digits : List UInt8) : Option Nat :=
  digits.foldlM (fun n b => (hexValue? b).map (16 * n + ·)) 0

/-- The four hexadecimal digits of an escape. -/
def readHex (c : Cursor) : Except ReadError (Nat × Cursor) :=
  let digits := c.rest.take 4
  let after := c.advanceOver digits
  if digits.length < 4 then .error (after.failHere .endInString)
  else
    match hexNumber? digits with
    | some n => .ok (n, after)
    | none => .error (after.failHere .invalidEscape)

/-- The byte that must open the second half of a pair of hexadecimal escapes. -/
def readPairMark (mark : Char) (c : Cursor) : Except ReadError Cursor :=
  match c.peek with
  | none => .error (c.failHere .endInString)
  | some b =>
    if b = byte mark then .ok c.advance else .error (c.advance.failHere .endOfHexEscape)

/-- The character of a hexadecimal escape, the cursor being after its `u`. -/
def readHexEscape (c : Cursor) : Except ReadError (Char × Cursor) := do
  let (n, c) ← readHex c
  if 0xDC00 ≤ n ∧ n ≤ 0xDFFF then throw (c.failHere .loneSurrogate)
  else if 0xD800 ≤ n ∧ n ≤ 0xDBFF then
    let c ← readPairMark '\\' c
    let c ← readPairMark 'u' c
    let (m, c) ← readHex c
    if 0xDC00 ≤ m ∧ m ≤ 0xDFFF then
      return (Char.ofNat ((n - 0xD800) * 1024 + (m - 0xDC00) + 0x10000), c)
    else throw (c.failHere .loneSurrogate)
  else return (Char.ofNat n, c)

/-- The character that a letter stands for after a backslash, but for `u`. -/
def escaped? (b : UInt8) : Option Char :=
  match Char.ofNat b.toNat with
  | '"' => some '"'
  | '\\' => some '\\'
  | '/' => some '/'
  | 'b' => some '\x08'
  | 'f' => some '\x0c'
  | 'n' => some '\n'
  | 'r' => some '\r'
  | 't' => some '\t'
  | _ => none

/-- The character of an escape, the cursor being after its backslash. -/
def readEscape (c : Cursor) : Except ReadError (Char × Cursor) :=
  match c.peek with
  | none => .error (c.failHere .endInString)
  | some b =>
    if b = byte 'u' then readHexEscape c.advance
    else
      match escaped? b with
      | some char => .ok (char, c.advance)
      | none => .error (c.advance.failHere .invalidEscape)

/-- The string of the bytes that its characters and escapes come to, the cursor being after the
closing quote. A fault of their encoding is placed as if all of them from the fault on stood right
before the cursor. -/
def decodeString (bytes : List UInt8) (c : Cursor) : Except ReadError (String × Cursor) :=
  match Text.decode bytes with
  | .ok chars => .ok (String.ofList chars, c)
  | .error validUpTo =>
    .error ⟨.invalidCodePoint, c.position.back (bytes.length - validUpTo)⟩

/-- The rest of a string after what was read so far, of which the last byte comes first. -/
def readStringFrom : Nat → List UInt8 → Cursor → Except ReadError (String × Cursor)
  | 0, _, c => .error (c.failHere .endInString)
  | fuel + 1, read, c =>
    match c.peek with
    | none => .error (c.failHere .endInString)
    | some b =>
      if b = byte '"' then decodeString read.reverse c.advance
      else if b = byte '\\' then do
        let (char, c) ← readEscape c.advance
        readStringFrom fuel ((Text.encodeChar char).reverse ++ read) c
      else if b < byte ' ' then .error (c.advance.failHere .controlCharacter)
      else readStringFrom fuel (b :: read) c.advance

/-- A string, the cursor being after its opening quote. -/
def readString (c : Cursor) : Except ReadError (String × Cursor) :=
  readStringFrom (c.rest.length + 1) [] c

/-! ## Skipping -/

/-- Move past an escape, the cursor being after its backslash. -/
def skipEscape (c : Cursor) : Except ReadError Cursor :=
  match c.peek with
  | none => .error (c.failHere .endInString)
  | some b =>
    if b = byte 'u' then (readHex c.advance).map Prod.snd
    else if (escaped? b).isSome then .ok c.advance
    else .error (c.advance.failHere .invalidEscape)

/-- Move past the rest of a string. -/
def skipStringFrom : Nat → Cursor → Except ReadError Cursor
  | 0, c => .error (c.failHere .endInString)
  | fuel + 1, c =>
    match c.peek with
    | none => .error (c.failHere .endInString)
    | some b =>
      if b = byte '"' then .ok c.advance
      else if b = byte '\\' then do skipStringFrom fuel (← skipEscape c.advance)
      else if b < byte ' ' then .error (c.advance.failHere .controlCharacter)
      else skipStringFrom fuel c.advance

/-- Move past a string, the cursor being after its opening quote. -/
def skipString (c : Cursor) : Except ReadError Cursor := skipStringFrom (c.rest.length + 1) c

end RecordFlow.Json
