import RecordFlow.Value

/-!
# The order of values

Values of different kinds order as null, booleans, numbers, strings, arrays, objects. Integers of
the signed 64-bit range compare exactly; any other pair of numbers compares by the total order of
the nearest binary64 numbers. Arrays and objects compare entry by entry, then by length.
-/

namespace RecordFlow

/-- The place of a kind in the order of values. -/
def Kind.rank : Kind → Nat
  | .null => 0
  | .bool => 1
  | .number => 2
  | .string => 3
  | .array => 4
  | .object => 5

/-- Two signed 64-bit integers compare exactly, other numbers as binary64 numbers. -/
def Number.order (a b : Number) : Ordering :=
  match a.toInt64?, b.toInt64? with
  | some m, some n => compare m n
  | _, _ => compare a.toBinary64.orderKey b.toBinary64.orderKey

namespace Value

mutual

/-- The order of two values. -/
def order : Value → Value → Ordering
  | .null, .null => .eq
  | .bool a, .bool b => compare a b
  | .number a, .number b => a.order b
  | .string a, .string b => compare a b
  | .array as, .array bs => orderItems as bs
  | .object as, .object bs => orderFields as bs
  | a, b => compare a.kind.rank b.kind.rank

/-- The first unequal pair of items decides, else the shorter list comes first. -/
def orderItems : List Value → List Value → Ordering
  | [], [] => .eq
  | [], _ :: _ => .lt
  | _ :: _, [] => .gt
  | a :: as, b :: bs => (order a b).then (orderItems as bs)

/-- The first pair of fields that differ in name or value decides, else the shorter list comes
first. -/
def orderFields : List (String × Value) → List (String × Value) → Ordering
  | [], [] => .eq
  | [], _ :: _ => .lt
  | _ :: _, [] => .gt
  | (m, a) :: as, (n, b) :: bs => ((compare m n).then (order a b)).then (orderFields as bs)

end

end Value

end RecordFlow
