/-!
# Finite binary64 numbers

A finite binary64 number is kept as its bit pattern. Its size is a whole number of `unit`s, the
least positive number being one unit and the number one being `2 ^ 1074` of them, so comparing
and rounding are arithmetic on integers (`units`, `nearest?`).
-/

namespace RecordFlow

/-- The sign bit of a pattern, `2 ^ 63`. -/
abbrev Binary64.signBit : Nat := 0x8000000000000000

/-- The leading bit of a significand, `2 ^ 52`, which patterns of normal numbers leave out. -/
abbrev Binary64.leadingBit : Nat := 0x10000000000000

/-- The pattern of infinity, without its sign: every smaller pattern is finite. -/
abbrev Binary64.infinityPattern : Nat := 0x7ff0000000000000

/-- A finite binary64 number, given by its bit pattern. -/
structure Binary64 where
  bits : UInt64
  finite : bits.toNat % Binary64.signBit < Binary64.infinityPattern
  deriving DecidableEq

namespace Binary64

/-- How many units make the number one. -/
def unitsPerOne : Nat := 1 <<< 1074

/-- The bit pattern without the sign. -/
def magnitude (x : Binary64) : Nat := x.bits.toNat % signBit

/-- Whether the sign bit is set; it is for `-0.0`. -/
def negative (x : Binary64) : Bool := decide (signBit ≤ x.bits.toNat)

/-- The power of two that scales the significand of a pattern. -/
def patternExponent (p : Nat) : Nat := p / leadingBit - 1

/-- The significand of a pattern, with the leading bit that normal numbers leave out. -/
def patternSignificand (p : Nat) : Nat :=
  if p < leadingBit then p else leadingBit + p % leadingBit

/-- The size of a pattern in units. It goes on past the largest finite pattern, where it gives
the value that the next pattern would have. -/
def patternUnits (p : Nat) : Nat := patternSignificand p <<< patternExponent p

/-- The number in units: its exact value is `units / unitsPerOne`. -/
def units (x : Binary64) : Int :=
  if x.negative then -(patternUnits x.magnitude : Int) else patternUnits x.magnitude

/-- The integer that the number is, if it is one. -/
def toInt? (x : Binary64) : Option Int :=
  if x.units % unitsPerOne = 0 then some (x.units / unitsPerOne) else none

/-- The place of the number in the total order of bit patterns, which sets `-0.0` below `0.0`. -/
def orderKey (x : Binary64) : Int :=
  if x.negative then -(x.magnitude : Int) - 1 else x.magnitude

/-! ## Rounding -/

/-- The quotient `n / d` rounded to the nearest natural number, a half to the even neighbour. -/
def roundHalfEven (n d : Nat) : Nat :=
  let q := n / d
  let r := n % d
  if 2 * r < d then q else if d < 2 * r then q + 1 else q + q % 2

/-- The pattern nearest to `n / d`, ties to even. It reaches `infinityPattern` when the quotient
rounds past the largest finite number. -/
def nearestPattern (n d : Nat) : Nat :=
  let whole := n * unitsPerOne / d
  let e := Nat.log2 whole - 52
  e * leadingBit + roundHalfEven (n * unitsPerOne) (d <<< e)

/-- The number with a pattern and a sign, if the pattern is finite. -/
def ofPattern? (neg : Bool) (p : Nat) : Option Binary64 :=
  let bits := UInt64.ofNat (if neg then signBit + p else p)
  if h : bits.toNat % signBit < infinityPattern then
    if p < infinityPattern then some ⟨bits, h⟩ else none
  else none

/-- The number nearest to `± n / d`, ties to even, if it is finite. -/
def nearest? (neg : Bool) (n d : Nat) : Option Binary64 := ofPattern? neg (nearestPattern n d)

/-- The number nearest to `± digits * 10 ^ exponent`, if it is finite. Numbers at least `10 ^ 400`
overflow and those below `10 ^ -400` vanish, so no larger power is ever formed. -/
def ofDecimal? (neg : Bool) (digits : Nat) (exponent : Int) : Option Binary64 :=
  let size := (Nat.toDigits 10 digits).length
  if digits = 0 ∨ exponent + size < -400 then nearest? neg 0 1
  else if 400 < exponent then none
  else if 0 ≤ exponent then nearest? neg (digits * Nat.pow 10 exponent.toNat) 1
  else nearest? neg digits (Nat.pow 10 (-exponent).toNat)

/-- The zero of positive sign. -/
def zero : Binary64 := ⟨0, by decide⟩

/-- The number nearest to an integer; zero stands in for one out of range. -/
def ofInt (n : Int) : Binary64 := (nearest? (decide (n < 0)) n.natAbs 1).getD zero

/-! ## Arithmetic -/

/-- The machine's floating-point number. -/
def toFloat (x : Binary64) : Float := Float.ofBits x.bits

/-- A machine number, if it is finite. -/
def ofFloat? (f : Float) : Option Binary64 :=
  let bits := f.toBits
  if h : bits.toNat % signBit < infinityPattern then some ⟨bits, h⟩ else none

end Binary64

end RecordFlow
