import Mathlib.Data.String.Basic
import RecordFlow.Proofs.Json.Number
import RecordFlow.Proofs.Json.Text
import RecordFlow.Proofs.Value.Path

/-!
# Text of values

How deep the brackets of a value nest (`Value.depth`), and its JSON text as a reader meets it: items
and fields after the first stand after a comma each, and no text has a line feed
(`Value.feed_not_mem_jsonChars`).
-/

namespace RecordFlow

namespace Value

/-! ## Depth -/

mutual

/-- How deep the brackets of the value nest. -/
def depth : Value → Nat
  | .array items => depthItems items + 1
  | .object fields => depthFields fields + 1
  | _ => 0

/-- The greatest depth of an item. -/
def depthItems : List Value → Nat
  | [] => 0
  | v :: rest => max (depth v) (depthItems rest)

/-- The greatest depth of the value of a field. -/
def depthFields : List (String × Value) → Nat
  | [] => 0
  | (_, v) :: rest => max (depth v) (depthFields rest)

end

variable {items : List Value} {fields : Fields Value}

theorem depthItems_le_iff {n : Nat} : depthItems items ≤ n ↔ ∀ v ∈ items, v.depth ≤ n := by
  induction items with
  | nil => exact iff_of_true (Nat.zero_le n) nofun
  | cons v rest ih =>
    rw [List.forall_mem_cons, ← ih]
    exact Nat.max_le

theorem depthFields_le_iff {n : Nat} :
    depthFields fields ≤ n ↔ ∀ field ∈ fields, field.2.depth ≤ n := by
  induction fields with
  | nil => exact iff_of_true (Nat.zero_le n) nofun
  | cons field rest ih =>
    rw [List.forall_mem_cons, ← ih]
    exact Nat.max_le

/-! ## Items and fields -/

/-- The text of a field. -/
def fieldChars (field : String × Value) : List Char :=
  jsonString field.1 ++ ':' :: field.2.jsonChars

theorem jsonItems_cons (v : Value) (rest : List Value) :
    jsonItems (v :: rest) = v.jsonChars ++ rest.flatMap fun w => ',' :: w.jsonChars := by
  induction rest generalizing v with
  | nil => exact (List.append_nil _).symm
  | cons w rest ih =>
    show v.jsonChars ++ ',' :: jsonItems (w :: rest) = _
    rw [ih, List.flatMap_cons, List.cons_append]

theorem jsonFields_cons (field : String × Value) (rest : Fields Value) :
    jsonFields (field :: rest) = fieldChars field ++ rest.flatMap fun w => ',' :: fieldChars w := by
  induction rest generalizing field with
  | nil => exact (List.append_nil _).symm
  | cons w rest ih =>
    show jsonString field.1 ++ ':' :: field.2.jsonChars ++ ',' :: jsonFields (w :: rest) = _
    rw [ih, List.flatMap_cons, List.cons_append]
    rfl

/-! ## Line feeds -/

theorem feed_not_mem_jsonString (s : String) : '\n' ∉ jsonString s := by
  unfold jsonString
  rw [List.cons_append, List.mem_cons, List.mem_append, List.mem_flatMap, List.mem_singleton]
  rintro (h | ⟨c, -, hc⟩ | h)
  · cases h
  · exact (Json.written_jsonChar c).feed_not_mem hc
  · cases h

theorem feed_not_mem_numberText (n : Number) : '\n' ∉ n.text.toList := by
  obtain ⟨negative, numeral, htext, -⟩ := Json.exists_numeral_text n
  rw [htext, List.mem_append, not_or]
  refine ⟨?_, numeral.feed_not_mem_chars⟩
  cases negative <;> decide

mutual

/-- The text of a value is one line. -/
theorem feed_not_mem_jsonChars : ∀ v : Value, '\n' ∉ v.jsonChars
  | .null => by decide
  | .bool b => by cases b <;> decide
  | .number n => feed_not_mem_numberText n
  | .string s => feed_not_mem_jsonString s
  | .array items => by
    have hitems := feed_not_mem_jsonItems items
    simp [jsonChars, hitems]
  | .object fields => by
    have hfields := feed_not_mem_jsonFields fields
    simp [jsonChars, hfields]

theorem feed_not_mem_jsonItems : ∀ items : List Value, '\n' ∉ jsonItems items
  | [] => nofun
  | [v] => feed_not_mem_jsonChars v
  | v :: w :: rest => by
    have hv := feed_not_mem_jsonChars v
    have hrest := feed_not_mem_jsonItems (w :: rest)
    rw [jsonItems]
    · simp [hv, hrest]
    · exact List.cons_ne_nil w rest

theorem feed_not_mem_jsonFields : ∀ fields : List (String × Value), '\n' ∉ jsonFields fields
  | [] => nofun
  | [(name, v)] => by
    have hname := feed_not_mem_jsonString name
    have hv := feed_not_mem_jsonChars v
    simp [jsonFields, hname, hv]
  | (name, v) :: field :: rest => by
    have hname := feed_not_mem_jsonString name
    have hv := feed_not_mem_jsonChars v
    have hrest := feed_not_mem_jsonFields (field :: rest)
    rw [jsonFields]
    · simp [hname, hv, hrest]
    · exact List.cons_ne_nil field rest

end

end Value

/-! ## Fields in order -/

/-- A name after all others is set at the end. -/
theorem Fields.insert_last {fields : Fields Value} {name : String} {v : Value}
    (h : Fields.Ascending (fields ++ [(name, v)])) :
    fields.insert name v = fields ++ [(name, v)] := by
  induction fields with
  | nil => rfl
  | cons field rest ih =>
    obtain ⟨hfirst, hrest⟩ := List.pairwise_cons.1 h
    have hlt : field.1 < name := hfirst name (by simp)
    unfold insert
    rw [if_neg hlt.not_gt, if_neg hlt.ne', ih hrest, List.cons_append]

end RecordFlow
