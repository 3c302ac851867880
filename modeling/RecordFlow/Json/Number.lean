import RecordFlow.Json.Cursor
import RecordFlow.Number
import RecordFlow.Text.Numeral

/-!
# JSON numbers

A number without a point and an exponent is an integer if a signed or unsigned 64-bit integer can
hold it. Any other number is the nearest binary64 number, and out of range if there is none; so is
`-0`, to keep its sign. Other readers may round the digits before they scale them, and so miss the
nearest number by a little.
-/

namespace RecordFlow.Json

/-- Bytes of decimal digits as characters. -/
def digitChars (bytes : List UInt8) : List Char := bytes.map fun b => Char.ofNat b.toNat

/-- The bytes of a number's exponent that lead past the largest exponent that is kept, the byte
that does so included; `none` if the exponent can be kept. -/
def overlongExponent? (digits : List UInt8) : Option (List UInt8) :=
  (List.range (digits.length + 1)).map digits.take |>.find? fun taken =>
    0x80000000 ≤ Text.digitsValue (digitChars taken)

/-- The part of a number before its point. -/
def readWhole (c : Cursor) : Except ReadError (List UInt8 × Cursor) :=
  match c.peek with
  | none => .error (c.failHere .endInValue)
  | some b =>
    if b = byte '0' then
      let after := c.advance.look
      match after.peek with
      | some d => if isDigit d then .error (after.failAhead .invalidNumber) else .ok ([b], after)
      | none => .ok ([b], after)
    else if isDigit b then .ok (c.run isDigit, c.skipRun isDigit)
    else .error (c.advance.failHere .invalidNumber)

/-- The digits after the point of a number; none if it has no point. -/
def readFraction (c : Cursor) : Except ReadError (Option (List UInt8) × Cursor) :=
  if c.peek = some (byte '.') then
    let c := c.advance
    let digits := c.run isDigit
    let after := c.skipRun isDigit
    if digits = [] then
      match after.peek with
      | some _ => .error (after.failAhead .invalidNumber)
      | none => .error (after.failAhead .endInValue)
    else .ok (some digits, after)
  else .ok (none, c)

/-- The sign of an exponent, whether it is a minus, and the cursor at its digits. -/
def readExponentSign (c : Cursor) : Bool × Cursor :=
  if c.peek = some (byte '+') then (false, c.advance)
  else if c.peek = some (byte '-') then (true, c.advance)
  else (false, c)

/-- The exponent of a number whose other digits are given; none if it has no exponent. An exponent
too large to be kept puts a number other than zero out of range at once, or makes it vanish. -/
def readExponent (vanished : Bool) (c : Cursor) : Except ReadError (Option Int × Cursor) :=
  match c.peek with
  | some b =>
    if b = byte 'e' ∨ b = byte 'E' then
      let (negative, c) := readExponentSign c.advance.look
      match c.peek with
      | none => .error (c.failHere .endInValue)
      | some d =>
        if isDigit d then
          let digits := c.run isDigit
          let after := c.skipRun isDigit
          let exponent : Int := Text.digitsValue (digitChars digits)
          match overlongExponent? digits with
          | some taken =>
            if negative || vanished then .ok (some (-exponent), after)
            else .error ((c.advanceOver taken).failHere .numberOutOfRange)
          | none => .ok (some (if negative then -exponent else exponent), after)
        else .error (c.advance.failHere .invalidNumber)
    else .ok (none, c)
  | none => .ok (none, c)

/-- A number, the cursor being after its minus sign if it has one. -/
def readNumber (negative : Bool) (c : Cursor) : Except ReadError (Number × Cursor) := do
  let (whole, c) ← readWhole c
  let (fraction, c) ← readFraction c
  let digits := Text.digitsValue (digitChars (whole ++ fraction.getD []))
  let (exponent, c) ← readExponent (digits == 0) c
  let integer := if fraction.isSome || exponent.isSome || (negative && digits == 0) then none
    else Number.ofInt? (if negative then -(digits : Int) else digits)
  match integer with
  | some n => return (n, c)
  | none =>
    match Binary64.ofDecimal? negative digits (exponent.getD 0 - (fraction.getD []).length) with
    | some x => return (.float x, c)
    | none => throw (c.failHere .numberOutOfRange)

end RecordFlow.Json
