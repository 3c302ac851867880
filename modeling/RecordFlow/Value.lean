import RecordFlow.Number

/-!
# Values

A record is a `Value`: null, a boolean, a number, a string, an array or an object. The fields of
an object are a list of names and values in ascending order of the names, each name once
(`Fields.Ascending`); `Value.Valid` says that of every object inside a value, and every operation
of the library keeps it.
-/

namespace RecordFlow

/-- A record, or any part of one. -/
inductive Value where
  | null
  | bool (b : Bool)
  | number (n : Number)
  | string (s : String)
  | array (items : List Value)
  | object (fields : List (String × Value))
  deriving Inhabited

/-! ## Kinds -/

/-- What sort of value a value is. -/
inductive Kind where
  | null | bool | number | string | array | object
  deriving DecidableEq

/-- The name of a kind in messages. -/
def Kind.name : Kind → String
  | .null => "null"
  | .bool => "bool"
  | .number => "number"
  | .string => "string"
  | .array => "array"
  | .object => "object"

/-- The kind of a value. -/
def Value.kind : Value → Kind
  | .null => .null
  | .bool _ => .bool
  | .number _ => .number
  | .string _ => .string
  | .array _ => .array
  | .object _ => .object

/-! ## Fields -/

/-- Named entries in ascending order of their names. -/
abbrev Fields (α : Type) := List (String × α)

namespace Fields

variable {α : Type}

/-- The names ascend, so that each stands once. -/
def Ascending (fields : Fields α) : Prop := (fields.map Prod.fst).Pairwise (· < ·)

/-- The entry of a name. -/
def get? (fields : Fields α) (name : String) : Option α :=
  (fields.find? (·.1 == name)).map Prod.snd

/-- Whether a name has an entry. -/
def contains (fields : Fields α) (name : String) : Bool := fields.any (·.1 == name)

/-- Set the entry of a name, in place of any that it has. -/
def insert (fields : Fields α) (name : String) (entry : α) : Fields α :=
  match fields with
  | [] => [(name, entry)]
  | (key, old) :: rest =>
    if name < key then (name, entry) :: (key, old) :: rest
    else if name = key then (name, entry) :: rest
    else (key, old) :: insert rest name entry

/-- The entries in order, a later entry of a name in place of an earlier one. -/
def ofList (entries : List (String × α)) : Fields α :=
  entries.foldl (fun fields entry => fields.insert entry.1 entry.2) []

end Fields

/-! ## Validity -/

mutual

/-- Every object in the value has ascending fields. -/
def Value.Valid : Value → Prop
  | .array items => Value.ValidItems items
  | .object fields => Fields.Ascending fields ∧ Value.ValidFields fields
  | _ => True

/-- Every item is valid. -/
def Value.ValidItems : List Value → Prop
  | [] => True
  | v :: rest => v.Valid ∧ Value.ValidItems rest

/-- The value of every field is valid. -/
def Value.ValidFields : List (String × Value) → Prop
  | [] => True
  | (_, v) :: rest => v.Valid ∧ Value.ValidFields rest

end

namespace Value

/-- The number that a value is, if it is one. -/
def number? : Value → Option Number
  | .number n => some n
  | _ => none

/-- A machine number as a value, null if it is not finite. -/
def ofFloat (f : Float) : Value :=
  match Number.ofFloat? f with
  | some n => .number n
  | none => .null

/-- A count as a value. -/
def ofCount (n : Nat) : Value := .number (.ofUInt64 (UInt64.ofNat n))

/-- The fields of `top` written over those of `base`; unless both are objects, `top` itself. -/
def overlay (base top : Value) : Value :=
  match base, top with
  | .object b, .object t => .object (t.foldl (fun out field => Fields.insert out field.1 field.2) b)
  | _, _ => top

end Value

end RecordFlow
