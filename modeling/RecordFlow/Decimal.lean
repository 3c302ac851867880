import RecordFlow.Binary64

/-!
# Shortest decimals

The text of a binary64 number has the fewest digits that read back as the number, and of those
the nearest to it. The digits are found in exact integer arithmetic: on the coarsest decimal grid
where a neighbour of the number reads back (`Binary64.shortest`).
-/

namespace RecordFlow

namespace Binary64

/-- Whether `digits * 10 ^ exponent` rounds to the pattern `p`. The bounds are the midpoints
between `p` and its neighbours; they round to `p` when its last bit is zero. -/
def readsBack (p : Nat) (digits : Nat) (exponent : Int) : Bool :=
  let twice := 2 * (digits * Nat.pow 10 exponent.toNat * unitsPerOne)
  let scale := Nat.pow 10 (-exponent).toNat
  let low := (patternUnits (p - 1) + patternUnits p) * scale
  let high := (patternUnits p + patternUnits (p + 1)) * scale
  if p % 2 = 0 then low ≤ twice && twice ≤ high else low < twice && twice < high

/-- The multiple of `10 ^ exponent` that reads back as the pattern `p` and is nearest to it, of
two equally near ones the even one. -/
def onGrid? (p : Nat) (exponent : Int) : Option Nat :=
  let size := patternUnits p * Nat.pow 10 (-exponent).toNat
  let step := Nat.pow 10 exponent.toNat * unitsPerOne
  let below := size / step
  match readsBack p below exponent, readsBack p (below + 1) exponent with
  | true, false => some below
  | false, true => some (below + 1)
  | true, true => some (roundHalfEven size step)
  | false, false => none

/-- The digits on the first grid from `exponent` down that has a number reading back as `p`. -/
def shortestFrom (p : Nat) : Nat → Int → Nat × Int
  | 0, exponent => (0, exponent)
  | fuel + 1, exponent =>
    match onGrid? p exponent with
    | some digits => (digits, exponent)
    | none => shortestFrom p fuel (exponent - 1)

/-- The decimal exponent of the coarsest grid looked at; no finite number is larger. -/
def coarsest : Nat := 309

/-- The fewest digits that read back as the size of the number, and their exponent. Grids as fine
as `10 ^ -324` hold such digits for every number. -/
def shortest (x : Binary64) : Nat × Int := shortestFrom x.magnitude 640 coarsest

end Binary64

/-! ## Layout -/

/-- Where the text of a number turns from positional to scientific notation. -/
structure NumberLayout where
  leastPositional : Int
  greatestPositional : Int

/-- Positional from `1e-5` up to below `1e16`, with at least one digit after the point. -/
def NumberLayout.record : NumberLayout := ⟨-5, 15⟩

/-- Digits with the point after the first `n` of them; zeros fill up on either side. -/
def placePoint (digits : List Char) (n : Int) : List Char :=
  if n ≤ 0 then "0.".toList ++ List.replicate (-n).toNat '0' ++ digits
  else
    let whole := digits.take n.toNat ++ List.replicate (n.toNat - digits.length) '0'
    let fraction := digits.drop n.toNat
    whole ++ '.' :: (if fraction = [] then ['0'] else fraction)

/-- Digits as `d.ddd` and the exponent with its sign. -/
def scientific (digits : List Char) (exponent : Int) : List Char :=
  let mantissa := match digits with
    | first :: second :: rest => first :: '.' :: second :: rest
    | _ => digits
  mantissa ++ 'e' :: (if exponent < 0 then '-' else '+') :: Nat.toDigits 10 exponent.natAbs

/-- The text of a binary64 number under a layout. -/
def Binary64.textWith (layout : NumberLayout) (x : Binary64) : String :=
  let body :=
    if x.magnitude = 0 then "0.0".toList
    else
      let (digits, exponent) := x.shortest
      let chars := Nat.toDigits 10 digits
      let leading := exponent + chars.length - 1
      if layout.leastPositional ≤ leading ∧ leading ≤ layout.greatestPositional then
        placePoint chars (leading + 1)
      else scientific chars leading
  String.ofList (if x.negative then '-' :: body else body)

/-- The text of a binary64 number. -/
def Binary64.text (x : Binary64) : String := x.textWith .record

end RecordFlow
