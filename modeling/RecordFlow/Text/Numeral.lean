import RecordFlow.Binary64

/-!
# Numerals

Reading integers of the signed 64-bit range and binary64 numbers from text, each with the fault
that it is refused for (`readInt64`, `readBinary64`).
-/

namespace RecordFlow.Text

/-- The number that decimal digits denote. -/
def digitsValue (digits : List Char) : Nat :=
  digits.foldl (fun n c => 10 * n + (c.toNat - '0'.toNat)) 0

/-- Why a text is not a numeral. -/
inductive NumeralFault where
  | noInteger | invalidDigit | tooLarge | tooSmall | noFloat | invalidFloat
  deriving DecidableEq

/-- The wording of a fault. -/
def NumeralFault.message : NumeralFault → String
  | .noInteger => "cannot parse integer from empty string"
  | .invalidDigit => "invalid digit found in string"
  | .tooLarge => "number too large to fit in target type"
  | .tooSmall => "number too small to fit in target type"
  | .noFloat => "cannot parse float from empty string"
  | .invalidFloat => "invalid float literal"

/-- A sign, if the text starts with one, and the rest: whether the sign is a minus. -/
def splitSign : List Char → Bool × List Char
  | '-' :: rest => (true, rest)
  | '+' :: rest => (false, rest)
  | text => (false, text)

/-! ## Integers -/

/-- Append digits to an integer read so far. The first character that is no digit or that leads
out of the signed 64-bit range decides the fault. -/
def appendDigits (negative : Bool) (n : Int) : List Char → Except NumeralFault Int
  | [] => .ok n
  | c :: rest =>
    if c.isDigit then
      let digit : Int := (c.toNat - '0'.toNat : Nat)
      let next := if negative then 10 * n - digit else 10 * n + digit
      if next < -0x8000000000000000 then .error .tooSmall
      else if 0x8000000000000000 ≤ next then .error .tooLarge
      else appendDigits negative next rest
    else .error .invalidDigit

/-- An integer of the signed 64-bit range: an optional sign and digits. -/
def readInt64 (text : List Char) : Except NumeralFault Int :=
  if text = [] then .error .noInteger
  else
    let (negative, digits) := splitSign text
    if digits = [] then .error .invalidDigit else appendDigits negative 0 digits

/-! ## Binary64 numbers -/

/-- The exponent part of a decimal numeral, zero if there is none. -/
def readExponent? : List Char → Option Int
  | [] => some 0
  | c :: rest =>
    if c = 'e' ∨ c = 'E' then
      let (negative, digits) := splitSign rest
      if digits ≠ [] ∧ digits.all Char.isDigit then
        some (if negative then -(digitsValue digits : Int) else digitsValue digits)
      else none
    else none

/-- The digits and the decimal exponent of an unsigned decimal numeral: digits with a point
somewhere or nowhere, and an optional exponent. -/
def readDecimal? (text : List Char) : Option (Nat × Int) :=
  let whole := text.takeWhile Char.isDigit
  let afterWhole := text.dropWhile Char.isDigit
  let (fraction, rest) := match afterWhole with
    | '.' :: tail => (tail.takeWhile Char.isDigit, tail.dropWhile Char.isDigit)
    | _ => ([], afterWhole)
  if whole = [] ∧ fraction = [] then none
  else (readExponent? rest).map fun e => (digitsValue (whole ++ fraction), e - fraction.length)

/-- The names of the numbers that are not finite, in small letters. -/
def nonFiniteNames : List (List Char) := ["inf".toList, "infinity".toList, "nan".toList]

/-- The number nearest to a numeral: an optional sign, then a decimal numeral or the name of a
number that is not finite. `none` is a number that is not finite or too large to be. -/
def readBinary64 (text : List Char) : Except NumeralFault (Option Binary64) :=
  if text = [] then .error .noFloat
  else
    let (negative, body) := splitSign text
    match readDecimal? body with
    | some (digits, exponent) => .ok (Binary64.ofDecimal? negative digits exponent)
    | none =>
      if nonFiniteNames.contains (body.map Char.toLower) then .ok none else .error .invalidFloat

end RecordFlow.Text
