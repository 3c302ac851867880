import RecordFlow.Json.Document
import RecordFlow.Load.Json
import RecordFlow.Proofs.Attempts
import RecordFlow.Proofs.Value.Presence

/-!
# Records under a schema

A record conforms to a schema field if the path of the field leads to null or to a value of its type
(`Schema.Field.Carried`). The check of loaded records admits a null by another rule than the one
that finds values (`Schema.Field.Admitted`), and the two rules differ on elements of arrays and on
paths that start with a dot. What is admitted, and what error is reported else, is
`Load.ofJson_checks`.
-/

namespace RecordFlow

open Value (Leads)

/-! ## Types -/

/-- A value is null or of a type. -/
inductive DataType.Holds : DataType → Value → Prop where
  | null (t : DataType) : Holds t .null
  | utf8 (s : String) : Holds .utf8 (.string s)
  | bool (b : Bool) : Holds .bool (.bool b)
  | int64 (n : Int) (inRange : -0x8000000000000000 ≤ n ∧ n < 0x10000000000000000)
    (h : n < 0x8000000000000000) : Holds .int64 (.number (.int n inRange))
  | float64 (n : Number) : Holds .float64 (.number n)

theorem Load.hasType_iff {t : DataType} {v : Value} : hasType t v = true ↔ t.Holds v := by
  constructor
  · intro h
    cases v with
    | null => exact .null t
    | bool b => cases t <;> first | exact .bool b | cases h
    | string s => cases t <;> first | exact .utf8 s | cases h
    | array items => cases t <;> cases h
    | object fields => cases t <;> cases h
    | number n =>
      cases t with
      | float64 => exact .float64 n
      | int64 =>
        cases n with
        | int n inRange =>
          refine .int64 n inRange ?_
          by_contra hlarge
          have hnone : (Number.int n inRange).toInt64? = none := if_neg hlarge
          have hsome : (Number.int n inRange).toInt64?.isSome = true := h
          rw [hnone] at hsome
          cases hsome
        | float x => cases h
      | _ => cases h
  · rintro (_ | _ | _ | ⟨n, inRange, hsmall⟩ | _)
    · cases t <;> rfl
    · rfl
    · rfl
    · show (Number.int n inRange).toInt64?.isSome = true
      have hsome : (Number.int n inRange).toInt64? = some n := if_pos hsmall
      rw [hsome]
      rfl
    · rfl

/-! ## Fields -/

namespace Schema.Field

/-- The path of the field leads to null or to a value of its type. -/
def Carried (field : Field) (record : Value) : Prop :=
  ∃ v, Leads (Path.segments field.name) record v ∧ field.dataType.Holds v

/-- A value of the right type is admitted wherever the path leads, but null, or nothing at all, only
if the record names the field. -/
inductive Admitted (field : Field) (record : Value) : Prop where
  | value {v : Value} (h : Leads (Path.segments field.name) record v) (hv : v ≠ .null)
    (htype : field.dataType.Holds v) : Admitted field record
  | null (h : ∀ v, Leads (Path.segments field.name) record v → v = .null)
    (hname : record.Names field.name) : Admitted field record

/-- What is wrong with a field of a record that does not have it as the schema says. -/
inductive Faulty (field : Field) (row : Nat) (record : Value) : Error → Prop where
  | missing (h : ∀ v, Leads (Path.segments field.name) record v → v = .null)
    (hname : ¬ record.Names field.name) :
    Faulty field row record (.schemaMismatch (.missingField row field.name))
  | wrongType {v : Value} (h : Leads (Path.segments field.name) record v) (hv : v ≠ .null)
    (htype : ¬ field.dataType.Holds v) :
    Faulty field row record (.badCell row field.name v.json (.wrongKind field.dataType v.kind))

variable {field : Field} {fields : Fields Value} {record : Value}

/-- A path that leads to nothing but null carries the field if it leads to a null. -/
theorem carried_iff_of_null (h : ∀ v, Leads (Path.segments field.name) record v → v = .null) :
    field.Carried record ↔ Leads (Path.segments field.name) record .null := by
  constructor
  · rintro ⟨v, hv, -⟩
    exact h v hv ▸ hv
  · exact fun hnull => ⟨.null, hnull, .null _⟩

theorem admitted_iff_of_null (h : ∀ v, Leads (Path.segments field.name) record v → v = .null) :
    field.Admitted record ↔ record.Names field.name := by
  constructor
  · rintro (⟨hv, hne, -⟩ | ⟨-, hname⟩)
    · exact absurd (h _ hv) hne
    · exact hname
  · exact fun hname => .null h hname

/-- Values other than null are admitted as they should be. -/
theorem admitted_iff_carried_of_value {v : Value} (h : Leads (Path.segments field.name) record v)
    (hv : v ≠ .null) : field.Admitted record ↔ field.Carried record := by
  constructor
  · rintro (⟨hw, -, htype⟩ | ⟨hnull, -⟩)
    · exact ⟨_, hw, htype⟩
    · exact absurd (hnull v h) hv
  · rintro ⟨w, hw, htype⟩
    cases h.unique hw
    exact .value h hv htype

/-- Unless the path is a shortcut, a field is judged as it should be exactly if its path does not
lead to a null element of an array. -/
theorem admitted_iff_carried_iff (h : ¬ Path.Shortcut field.name) (fields : Fields Value) :
    (field.Admitted (.object fields) ↔ field.Carried (.object fields)) ↔
      ¬ (Value.object fields).NullElement field.name := by
  rcases Value.atPath_cases (.object fields) field.name with ⟨v, hv, hne, -⟩ | ⟨hnull, hat⟩
  · refine iff_of_true (admitted_iff_carried_of_value hv hne) ?_
    rintro ⟨-, -, hw⟩
    exact hne (hv.unique hw)
  · rw [admitted_iff_of_null hnull, carried_iff_of_null hnull]
    exact Value.names_iff_leads_null_iff (Value.ne_empty_of_atPath hat) h hnull

/-- A shortcut is judged as it should be exactly if its path leads to a value other than null, or to
null and the record has a field of its name, or nowhere and the record has none. -/
theorem admitted_iff_carried_iff_of_shortcut {leaf : List Char} (h : field.name.toList = '.' :: leaf)
    (hleaf : '.' ∉ leaf) (fields : Fields Value) :
    (field.Admitted (.object fields) ↔ field.Carried (.object fields)) ↔
      ((∀ v, Leads (Path.segments field.name) (.object fields) v → v = .null) →
        ((∃ v, Fields.get? fields (String.ofList leaf) = some v) ↔
          Leads (Path.segments field.name) (.object fields) .null)) := by
  rcases Value.atPath_cases (.object fields) field.name with ⟨v, hv, hne, -⟩ | ⟨hnull, -⟩
  · exact iff_of_true (admitted_iff_carried_of_value hv hne) fun hall => absurd (hall v hv) hne
  · rw [admitted_iff_of_null hnull, carried_iff_of_null hnull, Value.names_shortcut_iff h hleaf]
    exact ⟨fun h _ => h, fun h => h hnull⟩

end Schema.Field

/-! ## Records -/

namespace Schema

/-- The record is an object that carries every field of the schema. -/
def Conforms (schema : Schema) (record : Value) : Prop :=
  (∃ fields, record = .object fields) ∧ ∀ field ∈ schema.fields, field.Carried record

/-- The record is an object and every field of the schema is admitted in it. -/
def Admits (schema : Schema) (record : Value) : Prop :=
  (∃ fields, record = .object fields) ∧ ∀ field ∈ schema.fields, field.Admitted record

/-- What is wrong with a record that is not admitted: it is no object, or the first field of the
schema that is not admitted is faulty. -/
inductive Refuses (schema : Schema) (row : Nat) : Value → Error → Prop where
  | notObject {record : Value} (h : ∀ fields, record ≠ .object fields) :
    Refuses schema row record (.schemaMismatch (.notObject row))
  | field {fields : Fields Value} {before after : List Field} {field : Field} {e : Error}
    (hfields : schema.fields = before ++ field :: after)
    (hbefore : ∀ f ∈ before, f.Admitted (.object fields))
    (hfault : field.Faulty row (.object fields) e) : Refuses schema row (.object fields) e

/-- Where no path is judged by the other rule, the records that conform are admitted. -/
theorem admits_iff_conforms {schema : Schema} {record : Value}
    (h : ∀ field ∈ schema.fields, ¬ Path.Shortcut field.name ∧ ¬ record.NullElement field.name) :
    schema.Admits record ↔ schema.Conforms record := by
  unfold Admits Conforms
  constructor
  · rintro ⟨⟨fields, rfl⟩, hfields⟩
    refine ⟨⟨fields, rfl⟩, fun field hfield => ?_⟩
    obtain ⟨hshort, hnull⟩ := h field hfield
    exact ((field.admitted_iff_carried_iff hshort fields).2 hnull).1 (hfields field hfield)
  · rintro ⟨⟨fields, rfl⟩, hfields⟩
    refine ⟨⟨fields, rfl⟩, fun field hfield => ?_⟩
    obtain ⟨hshort, hnull⟩ := h field hfield
    exact ((field.admitted_iff_carried_iff hshort fields).2 hnull).2 (hfields field hfield)

end Schema

namespace Load

variable {schema : Schema} {row : Nat} {record : Value} {records : List Value} {e : Error}
  {text : List Char}

/-! ## Checking fields and records -/

theorem kind_eq_null_iff {v : Value} : v.kind = .null ↔ v = .null := by
  cases v <;> simp [Value.kind]

variable {fields : Fields Value} {field : Schema.Field}

theorem checkField_of_value {v : Value} (h : record.atPath field.name = v) (hv : v ≠ .null) :
    checkField row record field =
      if hasType field.dataType v then .ok ()
      else .error (.badCell row field.name v.json (.wrongKind field.dataType v.kind)) := by
  unfold checkField
  dsimp only
  rw [h, if_neg fun hnull => hv (kind_eq_null_iff.1 hnull.1)]

/-- A null is of every type. -/
theorem checkField_of_null (h : record.atPath field.name = .null) :
    checkField row record field =
      if record.hasField field.name then .ok ()
      else .error (.schemaMismatch (.missingField row field.name)) := by
  have htype : hasType field.dataType .null = true := hasType_iff.2 (.null _)
  unfold checkField
  dsimp only
  rw [h, htype]
  by_cases hfield : record.hasField field.name <;> simp [hfield, Value.kind]

theorem checkField_eq_ok_iff :
    checkField row (.object fields) field = .ok () ↔ field.Admitted (.object fields) := by
  rcases Value.atPath_cases (.object fields) field.name with ⟨v, hv, hne, hat⟩ | ⟨hnull, hat⟩
  · have hiff : field.Admitted (.object fields) ↔ field.dataType.Holds v := by
      rw [Schema.Field.admitted_iff_carried_of_value hv hne]
      exact ⟨fun ⟨w, hw, htype⟩ => hv.unique hw ▸ htype, fun htype => ⟨v, hv, htype⟩⟩
    rw [checkField_of_value hat hne, hiff, ← hasType_iff]
    split_ifs with htype <;> simp [htype]
  · rw [checkField_of_null hat, Schema.Field.admitted_iff_of_null hnull,
      ← Value.hasField_iff (Value.ne_empty_of_atPath hat)]
    split_ifs with hfield <;> simp [hfield]

theorem checkField_eq_error_iff :
    checkField row (.object fields) field = .error e ↔ field.Faulty row (.object fields) e := by
  rcases Value.atPath_cases (.object fields) field.name with ⟨v, hv, hne, hat⟩ | ⟨hnull, hat⟩
  · rw [checkField_of_value hat hne]
    constructor
    · intro h
      split_ifs at h with htype
      cases h
      exact .wrongType hv hne fun hholds => htype (hasType_iff.2 hholds)
    · rintro (⟨hall, -⟩ | ⟨hw, -, htype⟩)
      · exact absurd (hall v hv) hne
      · cases hv.unique hw
        rw [if_neg fun hholds => htype (hasType_iff.1 hholds)]
  · rw [checkField_of_null hat]
    have hfield : (Value.object fields).hasField field.name = true ↔ _ :=
      Value.hasField_iff (Value.ne_empty_of_atPath hat)
    constructor
    · intro h
      split_ifs at h with hhas
      cases h
      exact .missing hnull fun hname => hhas (hfield.2 hname)
    · rintro (⟨-, hname⟩ | ⟨hw, hne, -⟩)
      · rw [if_neg fun hhas => hname (hfield.1 hhas)]
      · exact absurd (hnull _ hw) hne

theorem checkRecord_eq_ok_iff : checkRecord schema row record = .ok () ↔ schema.Admits record := by
  cases record with
  | object fields =>
    refine forM_eq_ok_iff.trans ?_
    simp only [checkField_eq_ok_iff]
    exact ⟨fun h => ⟨⟨fields, rfl⟩, h⟩, fun h => h.2⟩
  | _ => exact iff_of_false nofun fun ⟨⟨fields, hfields⟩, _⟩ => nomatch hfields

theorem checkRecord_eq_error_iff :
    checkRecord schema row record = .error e ↔ schema.Refuses row record e := by
  cases record with
  | object fields =>
    refine forM_eq_error_iff.trans ?_
    simp only [checkField_eq_ok_iff, checkField_eq_error_iff]
    constructor
    · rintro ⟨before, field, after, hfields, hbefore, hfault⟩
      exact .field hfields hbefore hfault
    · rintro (h | ⟨hfields, hbefore, hfault⟩)
      · exact absurd rfl (h fields)
      · exact ⟨_, _, _, hfields, hbefore, hfault⟩
  | _ =>
    constructor
    · rintro ⟨⟩
      exact .notObject nofun
    · rintro ⟨⟩
      rfl

theorem checkRecords_eq_ok_iff :
    checkRecords schema row records = .ok () ↔ ∀ record ∈ records, schema.Admits record := by
  induction records generalizing row with
  | nil => exact iff_of_true rfl nofun
  | cons record records ih =>
    have hboth : checkRecords schema row (record :: records) = .ok () ↔
        checkRecord schema row record = .ok () ∧ checkRecords schema (row + 1) records = .ok () :=
      check_bind_eq_ok_iff
    rw [hboth, List.forall_mem_cons, checkRecord_eq_ok_iff, ih]

/-- The error is that of the first record that is not admitted, with its row. -/
theorem checkRecords_eq_error_iff :
    checkRecords schema row records = .error e ↔
      ∃ before record after, records = before ++ record :: after ∧
        (∀ r ∈ before, schema.Admits r) ∧ schema.Refuses (row + before.length) record e := by
  induction records generalizing row with
  | nil =>
    refine iff_of_false nofun ?_
    rintro ⟨before, record, after, hrecords, -⟩
    simp at hrecords
  | cons record records ih =>
    have hstep : checkRecords schema row (record :: records) =
        (checkRecord schema row record >>= fun _ => checkRecords schema (row + 1) records) := rfl
    rw [hstep]
    cases hfirst : checkRecord schema row record with
    | error e' =>
      have hrefused := checkRecord_eq_error_iff.1 hfirst
      constructor
      · rintro ⟨⟩
        exact ⟨[], record, records, rfl, nofun, hrefused⟩
      · rintro ⟨_ | ⟨r, before⟩, other, after, hrecords, hbefore, hother⟩ <;> cases hrecords
        · cases hfirst.symm.trans (checkRecord_eq_error_iff.2 hother)
          rfl
        · have hadmitted := hbefore record List.mem_cons_self
          cases hfirst.symm.trans (checkRecord_eq_ok_iff.2 hadmitted)
    | ok u =>
      have hadmitted := checkRecord_eq_ok_iff.1 hfirst
      refine ih.trans ⟨?_, ?_⟩
      · rintro ⟨before, other, after, rfl, hbefore, hother⟩
        refine ⟨record :: before, other, after, rfl,
          List.forall_mem_cons.2 ⟨hadmitted, hbefore⟩, ?_⟩
        rwa [List.length_cons, ← Nat.add_assoc, Nat.add_right_comm]
      · rintro ⟨_ | ⟨r, before⟩, other, after, hrecords, hbefore, hother⟩ <;> cases hrecords
        · cases hfirst.symm.trans (checkRecord_eq_error_iff.2 hother)
        · rw [List.length_cons, ← Nat.add_assoc, Nat.add_right_comm] at hother
          exact ⟨before, other, after, rfl, (List.forall_mem_cons.1 hbefore).2, hother⟩

/-! ## Loading under a schema -/

variable {read : List Char → Except Json.ReadError Value} {text : List Char}

theorem ofJson_none_snd (read : List Char → Except Json.ReadError Value) (text : List Char) :
    (ofJson read none text).2 = jsonRecords read text := by
  unfold ofJson
  cases jsonRecords read text <;> rfl

/-- Under a schema, the records that are loaded without one are checked. -/
theorem ofJson_some_snd (schema : Schema) (h : jsonRecords read text = .ok records) :
    (ofJson read (some schema) text).2 = (checkRecords schema 1 records).map fun _ => records := by
  have hloaded : (do
      let records ← jsonRecords read text
      checkRecords schema 1 records
      return records) = (checkRecords schema 1 records).map fun _ => records := by
    rw [h]
    show (checkRecords schema 1 records >>= fun _ => pure records) = _
    cases checkRecords schema 1 records <;> rfl
  unfold ofJson
  dsimp only
  rw [hloaded]
  cases checkRecords schema 1 records <;> rfl

/-- **What the check of a schema accepts.** Records that a text holds, however documents are read,
are returned as they are if all of them are admitted, and else the error is that of the first row
that is not, and in that row of the first field. Admitted are the records that conform, if no path
of the schema is a dot and a name or leads to a null element of an array. A field whose path leads
to such an element is not admitted though it is carried. If its path is a dot and a name, a null or
missing value is admitted by whether the record itself has a field of that name. -/
theorem ofJson_checks (schema : Schema) (hload : (ofJson read none text).2 = .ok records) :
    let checked := (ofJson read (some schema) text).2
    (checked = .ok records ↔ ∀ record ∈ records, schema.Admits record) ∧
      (∀ others, checked = .ok others → others = records) ∧
      (∀ e, checked = .error e ↔
        ∃ before record after, records = before ++ record :: after ∧
          (∀ r ∈ before, schema.Admits r) ∧ schema.Refuses (before.length + 1) record e) ∧
      (∀ record, (∀ field ∈ schema.fields,
        ¬ Path.Shortcut field.name ∧ ¬ record.NullElement field.name) →
        (schema.Admits record ↔ schema.Conforms record)) ∧
      ∀ (field : Schema.Field) (fields : Fields Value),
        (¬ Path.Shortcut field.name →
          ((field.Admitted (.object fields) ↔ field.Carried (.object fields)) ↔
            ¬ (Value.object fields).NullElement field.name)) ∧
        ∀ leaf, '.' ∉ leaf → field.name.toList = '.' :: leaf →
          ((field.Admitted (.object fields) ↔ field.Carried (.object fields)) ↔
            ((∀ v, Leads (Path.segments field.name) (.object fields) v → v = .null) →
              ((∃ v, Fields.get? fields (String.ofList leaf) = some v) ↔
                Leads (Path.segments field.name) (.object fields) .null))) := by
  intro checked
  have hchecked : checked = (checkRecords schema 1 records).map fun _ => records :=
    ofJson_some_snd schema ((ofJson_none_snd read text).symm.trans hload)
  have hok : checked = .ok records ↔ checkRecords schema 1 records = .ok () := by
    rw [hchecked]
    cases checkRecords schema 1 records <;> simp [Except.map]
  have herror : ∀ e, checked = .error e ↔ checkRecords schema 1 records = .error e := by
    intro e
    rw [hchecked]
    cases checkRecords schema 1 records <;> simp [Except.map]
  refine ⟨hok.trans checkRecords_eq_ok_iff, fun others hothers => ?_, fun e => ?_,
    fun record => Schema.admits_iff_conforms, fun field fields => ⟨?_, fun leaf hleaf h => ?_⟩⟩
  · rw [hchecked] at hothers
    cases hresult : checkRecords schema 1 records with
    | error e => rw [hresult] at hothers; cases hothers
    | ok u => rw [hresult] at hothers; cases hothers; rfl
  · rw [herror, checkRecords_eq_error_iff]
    simp only [Nat.add_comm 1]
  · exact fun h => field.admitted_iff_carried_iff h fields
  · exact field.admitted_iff_carried_iff_of_shortcut h hleaf fields

/-- The null of the first row is of every type, and the string of the second row is no boolean. -/
theorem ofJson_checks_of_second_row :
    let text := "[\x7b\"a\":null\x7d,\x7b\"a\":\"x\"\x7d]".toList
    let first := Value.object [("a", .null)]
    let second := Value.object [("a", .string "x")]
    let schema : Schema := ⟨[⟨"a", .bool⟩]⟩
    let fault : Error := .badCell 2 "a" (Value.string "x").json (.wrongKind .bool .string)
    (ofJson Json.readDocument none text).2 = .ok [first, second] ∧ schema.Admits first ∧
      schema.Refuses 2 second fault ∧
      (ofJson Json.readDocument (some schema) text).2 = .error fault := by
  intro text first second schema fault
  have hload : (ofJson Json.readDocument none text).2 = .ok [first, second] := by
    dsimp +zetaDelta only
    rfl
  have hpassed : checkRecord schema 1 first = .ok () := rfl
  have hfirst : schema.Admits first := checkRecord_eq_ok_iff.1 hpassed
  have hsecond : schema.Refuses 2 second fault := checkRecord_eq_error_iff.1 rfl
  obtain ⟨-, -, herror, -⟩ := ofJson_checks schema hload
  exact ⟨hload, hfirst, hsecond, (herror _).2
    ⟨[first], second, [], rfl, List.forall_mem_singleton.2 hfirst, hsecond⟩⟩

/-- An object whose field is an array with a null element is refused for missing that element,
although it conforms. An object without the field of a path through an empty name is accepted,
although it does not. -/
theorem conformance_misjudged :
    let one := Value.number (.int 1 (by decide))
    let array := Value.object [("a", .array [.null])]
    let object := Value.object [("a", one)]
    let element : Schema := ⟨[⟨"a.0", .int64⟩]⟩
    let inner : Schema := ⟨[⟨".a", .int64⟩]⟩
    let load := ofJson Json.readDocument
    ((load none "\x7b\"a\":[null]\x7d".toList).2 = .ok [array] ∧ element.Conforms array ∧
        (load (some element) "\x7b\"a\":[null]\x7d".toList).2 =
          .error (.schemaMismatch (.missingField 1 "a.0"))) ∧
      (load none "\x7b\"a\":1\x7d".toList).2 = .ok [object] ∧ ¬ inner.Conforms object ∧
        (load (some inner) "\x7b\"a\":1\x7d".toList).2 = .ok [object] := by
  intro one array object element inner load
  have hleads : Leads [['a'], ['0']] array .null :=
    .field (v := .array [.null]) rfl (.element (i := 0) rfl rfl (.here .null))
  have hconforms : element.Conforms array :=
    ⟨⟨_, rfl⟩, List.forall_mem_singleton.2 ⟨.null, hleads, .null _⟩⟩
  have hrefused : ¬ inner.Conforms object := by
    rintro ⟨-, hfields⟩
    obtain ⟨v, hv, -⟩ := hfields _ List.mem_cons_self
    have hpath : Leads [[], ['a']] (.object [("a", one)]) v := hv
    cases hpath with
    | field hget _ => cases hget
  exact ⟨⟨by rfl, hconforms, by rfl⟩, by rfl, hrefused, by rfl⟩

end Load

end RecordFlow
