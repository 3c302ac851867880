import RecordFlow.Value

/-!
# Keys

A key stands for a value up to the way its numbers are stored: an integral float of the 64-bit
ranges has the key of the integer, so `1` and `1.0` share a key (`Key.ofValue`). Keys have decidable
equality.
-/

namespace RecordFlow

/-- What records are compared by in groups and merges. -/
inductive Key where
  | null
  | bool (b : Bool)
  | int (n : Int)
  | float (x : Binary64)
  | string (s : String)
  | list (items : List Key)
  | map (fields : List (String × Key))
  deriving Inhabited

namespace Key

/-! ## Equality -/

mutual

/-- Equality of keys, as a test. -/
def beq : Key → Key → Bool
  | .null, .null => true
  | .bool a, .bool b => a == b
  | .int a, .int b => a == b
  | .float a, .float b => a == b
  | .string a, .string b => a == b
  | .list as, .list bs => beqItems as bs
  | .map as, .map bs => beqFields as bs
  | _, _ => false

/-- Equality of item lists, as a test. -/
def beqItems : List Key → List Key → Bool
  | [], [] => true
  | a :: as, b :: bs => beq a b && beqItems as bs
  | _, _ => false

/-- Equality of field lists, as a test. -/
def beqFields : List (String × Key) → List (String × Key) → Bool
  | [], [] => true
  | (m, a) :: as, (n, b) :: bs => m == n && beq a b && beqFields as bs
  | _, _ => false

end

mutual

theorem eq_of_beq : ∀ {a b : Key}, beq a b = true → a = b
  | .null, b, h => by cases b <;> simp_all [beq]
  | .bool _, b, h => by cases b <;> simp_all [beq]
  | .int _, b, h => by cases b <;> simp_all [beq]
  | .float _, b, h => by cases b <;> simp_all [beq]
  | .string _, b, h => by cases b <;> simp_all [beq]
  | .list as, b, h => by
    cases b with
    | list bs => exact congrArg Key.list (eq_of_beqItems (by simpa [beq] using h))
    | _ => simp [beq] at h
  | .map as, b, h => by
    cases b with
    | map bs => exact congrArg Key.map (eq_of_beqFields (by simpa [beq] using h))
    | _ => simp [beq] at h

theorem eq_of_beqItems : ∀ {as bs : List Key}, beqItems as bs = true → as = bs
  | [], bs, h => by cases bs <;> simp_all [beqItems]
  | a :: as, bs, h => by
    cases bs with
    | nil => simp [beqItems] at h
    | cons b bs =>
      simp only [beqItems, Bool.and_eq_true] at h
      rw [eq_of_beq h.1, eq_of_beqItems h.2]

theorem eq_of_beqFields : ∀ {as bs : List (String × Key)}, beqFields as bs = true → as = bs
  | [], bs, h => by cases bs <;> simp_all [beqFields]
  | (m, a) :: as, bs, h => by
    cases bs with
    | nil => simp [beqFields] at h
    | cons b bs =>
      obtain ⟨n, b⟩ := b
      simp only [beqFields, Bool.and_eq_true, beq_iff_eq] at h
      rw [h.1.1, eq_of_beq h.1.2, eq_of_beqFields h.2]

end

mutual

theorem beq_self : ∀ a : Key, beq a a = true
  | .null => by simp [beq]
  | .bool _ => by simp [beq]
  | .int _ => by simp [beq]
  | .float _ => by simp [beq]
  | .string _ => by simp [beq]
  | .list as => by simpa [beq] using beqItems_self as
  | .map as => by simpa [beq] using beqFields_self as

theorem beqItems_self : ∀ as : List Key, beqItems as as = true
  | [] => by simp [beqItems]
  | a :: as => by simp [beqItems, beq_self a, beqItems_self as]

theorem beqFields_self : ∀ as : List (String × Key), beqFields as as = true
  | [] => by simp [beqFields]
  | (_, a) :: as => by simp [beqFields, beq_self a, beqFields_self as]

end

instance : BEq Key := ⟨beq⟩

instance : LawfulBEq Key where
  eq_of_beq := eq_of_beq
  rfl := beq_self _

instance : DecidableEq Key := fun a b =>
  if h : (a == b) = true then isTrue (LawfulBEq.eq_of_beq h)
  else isFalse fun e => h (by rw [e]; exact beq_self b)

/-! ## The key of a value -/

/-- The key of a number: an integer, also for an integral float that a signed or unsigned 64-bit
integer can hold. -/
def ofNumber : Number → Key
  | .int n _ => .int n
  | .float x =>
    match x.toInt? with
    | some n => if -0x8000000000000000 ≤ n ∧ n < 0x10000000000000000 then .int n else .float x
    | none => .float x

mutual

/-- The key of a value. -/
def ofValue : Value → Key
  | .null => .null
  | .bool b => .bool b
  | .number n => ofNumber n
  | .string s => .string s
  | .array items => .list (ofItems items)
  | .object fields => .map (ofFields fields)

/-- The keys of the items of an array. -/
def ofItems : List Value → List Key
  | [] => []
  | v :: rest => ofValue v :: ofItems rest

/-- The keys of the fields of an object. -/
def ofFields : List (String × Value) → List (String × Key)
  | [] => []
  | (name, v) :: rest => (name, ofValue v) :: ofFields rest

end

/-- Several keys as one, equal when they are equal part by part. -/
def composite (parts : List Key) : Key := .list parts

end Key

end RecordFlow
