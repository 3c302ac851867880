import Mathlib.Data.List.Basic
import RecordFlow.Value.Path

/-!
# Where paths lead

A path leads from a record through fields and elements that are there (`Value.Leads`), or nowhere.
The value at a path is the one that it leads to, and null if it leads nowhere
(`Value.atPath_of_leads`, `Value.atPath_of_leads_nowhere`); it is valid if the record is.
-/

namespace RecordFlow.Value

/-! ## Parts of valid values -/

theorem validItems_iff {items : List Value} : ValidItems items ↔ ∀ v ∈ items, v.Valid := by
  induction items with
  | nil => exact iff_of_true trivial nofun
  | cons v items ih => rw [ValidItems, ih, List.forall_mem_cons]

theorem validFields_iff {fields : Fields Value} :
    ValidFields fields ↔ ∀ field ∈ fields, field.2.Valid := by
  induction fields with
  | nil => exact iff_of_true trivial nofun
  | cons field fields ih =>
    obtain ⟨name, v⟩ := field
    rw [ValidFields, ih, List.forall_mem_cons]

theorem Valid.of_get? {fields : Fields Value} {name : String} {v : Value}
    (h : (object fields).Valid) (hget : Fields.get? fields name = some v) : v.Valid := by
  obtain ⟨field, hfind, rfl⟩ := Option.map_eq_some_iff.1 hget
  exact validFields_iff.1 h.2 field (List.mem_of_find?_eq_some hfind)

theorem Valid.of_getElem? {items : List Value} {i : Nat} {v : Value} (h : (array items).Valid)
    (hget : items[i]? = some v) : v.Valid :=
  validItems_iff.1 h v (List.mem_of_getElem? hget)

/-! ## Leading somewhere -/

/-- Segments lead from a value through fields and elements that are there to a value inside it. -/
inductive Leads : List (List Char) → Value → Value → Prop where
  | here (v : Value) : Leads [] v v
  | field {segment : List Char} {segments : List (List Char)} {fields : Fields Value} {v w : Value}
    (hget : Fields.get? fields (String.ofList segment) = some v) (h : Leads segments v w) :
    Leads (segment :: segments) (.object fields) w
  | element {segment : List Char} {segments : List (List Char)} {items : List Value} {i : Nat}
    {v w : Value} (hposition : Path.position? segment = some i) (hget : items[i]? = some v)
    (h : Leads segments v w) : Leads (segment :: segments) (.array items) w

variable {v w record : Value} {segment : List Char} {segments : List (List Char)} {path : String}

theorem child_object (fields : Fields Value) (segment : List Char) :
    (object fields).child segment = (Fields.get? fields (String.ofList segment)).getD .null := rfl

theorem child_array (items : List Value) (segment : List Char) :
    (array items).child segment =
      ((Path.position? segment).bind fun i => items[i]?).getD .null := by
  unfold child
  cases Path.position? segment <;> rfl

/-- A step goes to a field or an element that is there, or else to null. -/
theorem leads_child_or_null (v : Value) (segment : List Char) :
    Leads [segment] v (v.child segment) ∨ v.child segment = .null := by
  cases v with
  | object fields =>
    rw [child_object]
    cases hget : Fields.get? fields (String.ofList segment) with
    | none => exact .inr rfl
    | some v => exact .inl (.field hget (.here v))
  | array items =>
    rw [child_array]
    cases hposition : Path.position? segment with
    | none => exact .inr rfl
    | some i =>
      rw [Option.bind_some]
      cases hget : items[i]? with
      | none => exact .inr rfl
      | some v => exact .inl (.element hposition hget (.here v))
  | _ => exact .inr rfl

theorem foldl_child_null (segments : List (List Char)) : segments.foldl child .null = .null := by
  induction segments with
  | nil => rfl
  | cons segment segments ih => exact ih

theorem foldl_child_of_leads (h : Leads segments v w) : segments.foldl child v = w := by
  induction h with
  | here v => rfl
  | field hget _ ih =>
    rw [List.foldl_cons, child_object, hget]
    exact ih
  | element hposition hget _ ih =>
    rw [List.foldl_cons, child_array, hposition, Option.bind_some, hget]
    exact ih

theorem foldl_child_of_leads_nowhere (h : ∀ w, ¬ Leads segments v w) :
    segments.foldl child v = .null := by
  induction segments generalizing v with
  | nil => exact absurd (.here v) (h v)
  | cons segment segments ih =>
    rw [List.foldl_cons]
    rcases leads_child_or_null v segment with hchild | hnull
    · refine ih fun w hw => h w ?_
      cases hchild with
      | field hget hrest =>
        cases hrest
        exact .field hget hw
      | element hposition hget hrest =>
        cases hrest
        exact .element hposition hget hw
    · rw [hnull]
      exact foldl_child_null segments

/-- The value at a path is the one that the path leads to. -/
theorem atPath_of_leads (h : Leads (Path.segments path) record v) : record.atPath path = v :=
  foldl_child_of_leads h

/-- A path that leads nowhere gives null. -/
theorem atPath_of_leads_nowhere (h : ∀ v, ¬ Leads (Path.segments path) record v) :
    record.atPath path = .null :=
  foldl_child_of_leads_nowhere h

/-! ## Validity -/

theorem Valid.of_leads (hv : v.Valid) (h : Leads segments v w) : w.Valid := by
  induction h with
  | here v => exact hv
  | field hget _ ih => exact ih (hv.of_get? hget)
  | element _ hget _ ih => exact ih (hv.of_getElem? hget)

theorem Valid.atPath (h : record.Valid) (path : String) : (record.atPath path).Valid := by
  by_cases hleads : ∃ v, Leads (Path.segments path) record v
  · obtain ⟨v, hv⟩ := hleads
    rw [atPath_of_leads hv]
    exact h.of_leads hv
  · rw [atPath_of_leads_nowhere (not_exists.1 hleads)]
    trivial

end RecordFlow.Value
