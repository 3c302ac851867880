import RecordFlow.Binary64

/-!
# Numbers

A number of a record is an integer of the signed or unsigned 64-bit range, kept exactly, or a
finite binary64 number. The two kinds stay apart: the integer `1` and the float `1.0` are
different numbers of one value.
-/

namespace RecordFlow

/-- A 64-bit integer, signed or unsigned, or a finite binary64 number. Integers range from
`-2 ^ 63` to below `2 ^ 64`. -/
inductive Number where
  | int (n : Int) (inRange : -0x8000000000000000 ≤ n ∧ n < 0x10000000000000000)
  | float (x : Binary64)
  deriving DecidableEq

namespace Number

/-- The integer, if it lies in the signed 64-bit range. -/
def toInt64? : Number → Option Int
  | .int n _ => if n < 0x8000000000000000 then some n else none
  | .float _ => none

/-- The number itself, or the float nearest to an integer. -/
def toBinary64 : Number → Binary64
  | .int n _ => Binary64.ofInt n
  | .float x => x

/-- The integer of the signed 64-bit range nearest to an integer. -/
def clamp (n : Int) : Int := max (-0x8000000000000000) (min n 0x7fffffffffffffff)

/-- The integer, held to the signed 64-bit range. -/
def ofIntClamped (n : Int) : Number := .int (clamp n) (by unfold clamp; omega)

/-- An unsigned 64-bit integer. -/
def ofUInt64 (n : UInt64) : Number :=
  .int n.toNat (by have := n.toNat_lt; omega)

/-- An integer, if it lies in the signed or the unsigned 64-bit range. -/
def ofInt? (n : Int) : Option Number :=
  if h : -0x8000000000000000 ≤ n ∧ n < 0x10000000000000000 then some (.int n h) else none

/-- A machine number, if it is finite. -/
def ofFloat? (f : Float) : Option Number := (Binary64.ofFloat? f).map .float

end Number

end RecordFlow
