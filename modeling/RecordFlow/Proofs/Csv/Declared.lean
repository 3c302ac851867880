import Mathlib.Data.List.Nodup
import RecordFlow.Proofs.Csv.Records
import RecordFlow.Proofs.Load.Conformance

/-!
# Declared types

To declare for columns the types that their cells are inferred to have changes nothing of what is
read (`Csv.recordsOf_of_inferred`). Whatever types are declared, the records that are read pass the
check for loaded JSON records, as long as the names of the fields are paths of one segment
(`Csv.checkRecords_recordsOf`).
-/

namespace RecordFlow

/-! ## Types of cells -/

/-- What a cell stands for under a type is of the type. -/
theorem Csv.Cell.Typed.holds {t : DataType} {raw : String} {v : Value} (h : Typed t raw v) :
    t.Holds v := by
  cases h with
  | blank t h => exact .null t
  | utf8 h => exact .utf8 _
  | int64 inRange h => exact .int64 _ inRange h.range.2
  | float64 h => exact .float64 _
  | yes h => exact .bool true
  | no h => exact .bool false

/-- A field of a name without dots is admitted if the record has a value of its type under the
name. -/
theorem Schema.Field.admitted_of_get? {field : Field} {fields : Fields Value} {v : Value}
    (hne : field.name ≠ "") (hdot : '.' ∉ field.name.toList)
    (hget : Fields.get? fields field.name = some v) (hv : field.dataType.Holds v) :
    field.Admitted (.object fields) := by
  have hget' : Fields.get? fields (String.ofList field.name.toList) = some v := by
    rwa [String.ofList_toList]
  have hleads : Value.Leads (Path.segments field.name) (.object fields) v := by
    rw [Path.segments_of_not_dot hne hdot]
    exact .field hget' (.here v)
  by_cases hnull : v = .null
  · -- The value found is null, so that the record names the field decides.
    have hlast : (Path.segments field.name).getLast? = some field.name.toList := by
      rw [Path.segments_of_not_dot hne hdot]
      rfl
    have hholder : Value.Leads (Path.holder field.name) (.object fields) (.object fields) := by
      rw [Path.holder_of_not_dot hne hdot]
      exact .here _
    exact .null (fun w hw => (hw.unique hleads).trans hnull)
      ⟨field.name.toList, hlast, fields, v, hholder, hget'⟩
  · exact .value hleads hnull hv

namespace Csv

variable {schema : Schema} {table : Table} {headers cells : List String} {column raw : String}
  {records : List Value} {record : Value} {cellsOf : Except ReadError (List String)}

/-! ## Inferred types -/

/-- Cells that are inferred to be of the type of their column are read as if it had none. -/
theorem cellValue_of_native {row : Nat}
    (h : ∀ field ∈ schema.fields, field.name = column → field.dataType.Native (Cell.infer raw)) :
    cellValue (some schema) row column raw = cellValue none row column raw := by
  have hinferred : Cell.Inferred raw (Cell.infer raw) := Cell.inferred_infer raw
  refine Eq.trans (b := .ok (Cell.infer raw)) (cellValue_eq_ok_iff.2 ?_) rfl
  cases htype : columnType? (some schema) column with
  | none => exact .inferred htype hinferred
  | some t =>
    obtain ⟨field, hfield, hname, rfl⟩ := exists_of_columnType? htype
    exact .typed htype (hinferred.typed (h field hfield hname))

theorem rowFields_of_native {row : Nat}
    (h : ∀ field ∈ schema.fields, ∀ i, headers[i]? = some field.name →
      field.dataType.Native (Cell.infer (cellAt cells i))) :
    rowFields (some schema) row headers cells = rowFields none row headers cells := by
  rw [rowFields_eq_mapM, rowFields_eq_mapM]
  refine mapM_congr fun p hp => ?_
  obtain ⟨i, hi⟩ := List.mem_iff_getElem?.1 hp
  obtain ⟨hcolumn, hcell⟩ := getElem?_namedCells_eq_some_iff.1 hi
  rw [cellValue_of_native fun field hfield hname => ?_]
  rw [hcell]
  exact h field hfield i (hname ▸ hcolumn)

/-- A schema of the types that all cells of the columns are inferred to have changes nothing: a
table whose rows were read has records under it, and they are those without a schema. -/
theorem recordsOf_of_inferred (schema : Schema) (table : Table)
    (hcolumns : ∀ field ∈ schema.fields, field.name ∈ table.headers)
    (htypes : ∀ field ∈ schema.fields, ∀ cells, .ok cells ∈ table.rows →
      ∀ i, table.headers[i]? = some field.name →
        field.dataType.Native (Cell.infer (cellAt cells i))) :
    recordsOf (some schema) table = recordsOf none table ∧
      ((∀ row ∈ table.rows, ∃ cells, row = .ok cells) →
        ∃ records, recordsOf (some schema) table = .ok records ∧
          recordsOf none table = .ok records) := by
  have hcovered : Covered (some schema) table.headers := by
    rintro s ⟨⟩
    exact hcolumns
  have huncovered : Covered none table.headers := nofun
  have hsame : recordsOf (some schema) table = recordsOf none table := by
    rw [recordsOf_of_covered hcovered, recordsOf_of_covered huncovered, rowRecords_eq_mapM,
      rowRecords_eq_mapM]
    refine mapM_congr fun ⟨cellsOf, row⟩ hrow => ?_
    cases cellsOf with
    | error e => rfl
    | ok cells =>
      have hcells : .ok cells ∈ table.rows := List.fst_mem_of_mem_zipIdx hrow
      unfold rowRecord
      dsimp only
      rw [rowFields_of_native fun field hfield => htypes field hfield cells hcells]
  refine ⟨hsame, fun hread => ?_⟩
  have hsound : ∀ row ∈ table.rows, Sound none table.headers row := by
    intro row hrow
    obtain ⟨cells, rfl⟩ := hread row hrow
    exact ⟨cells, rfl, nofun⟩
  obtain ⟨records, hrecords⟩ := exists_recordsOf_iff.2 ⟨huncovered, hsound⟩
  exact ⟨records, hsame.trans hrecords, hrecords⟩

/-- Rows shorter and longer than the header, with two columns of the declared name. -/
theorem recordsOf_of_inferred_ragged :
    let table : Table := ⟨["a", "b", "a"], [.ok ["1"], .ok ["", "yes", " 2 ", "x"]]⟩
    ∃ records, recordsOf (some ⟨[⟨"a", .int64⟩]⟩) table = .ok records ∧
      recordsOf none table = .ok records := by
  intro table
  refine (recordsOf_of_inferred ⟨[⟨"a", .int64⟩]⟩ table ?_ ?_).2 ?_
  · rintro field hfield
    obtain rfl := List.mem_singleton.1 hfield
    exact List.mem_cons_self
  · rintro field hfield cells hcells i hi
    obtain rfl := List.mem_singleton.1 hfield
    have hi' : i = 0 ∨ i = 2 := by
      match i with
      | 0 => exact .inl rfl
      | 1 => exact absurd hi (by decide)
      | 2 => exact .inr rfl
      | i + 3 => cases hi
    simp only [table, List.mem_cons, Except.ok.injEq, List.not_mem_nil, or_false] at hcells
    rcases hcells with rfl | rfl <;> rcases hi' with rfl | rfl
    · exact .int64 1 (by decide)
    · exact .null _
    · exact .null _
    · exact .int64 2 (by decide)
  · rintro _ (_ | ⟨_, _ | ⟨_, ⟨⟩⟩⟩)
    · exact ⟨_, rfl⟩
    · exact ⟨_, rfl⟩

/-! ## Checking the records that were read -/

/-- If the names are distinct, the column of a field has the type of that field. -/
theorem columnType?_of_mem (hnames : (schema.fields.map Schema.Field.name).Nodup)
    {field : Schema.Field} (h : field ∈ schema.fields) :
    columnType? (some schema) field.name = some field.dataType := by
  cases htype : columnType? (some schema) field.name with
  | none =>
    have hnone : schema.fields.find? (·.name == field.name) = none := Option.map_eq_none_iff.1 htype
    exact absurd (List.find?_eq_none.1 hnone field h) (by simp)
  | some t =>
    obtain ⟨other, hother, hname, rfl⟩ := exists_of_columnType? htype
    rw [List.inj_on_of_nodup_map hnames hother h hname]

/-- Every record of a table is that of a row. -/
theorem exists_recordOf {schema : Option Schema} (h : recordsOf schema table = .ok records)
    (hrecord : record ∈ records) :
    ∃ cellsOf ∈ table.rows, RecordOf schema table.headers cellsOf record := by
  obtain ⟨-, hrecords⟩ := recordsOf_eq_ok_iff.1 h
  obtain ⟨i, hi, rfl⟩ := List.mem_iff_getElem.1 hrecord
  have hlength := hrecords.length_eq
  exact ⟨table.rows[i], List.getElem_mem (hlength ▸ hi), hrecords.get (hlength ▸ hi) hi⟩

theorem RecordOf.admitted (hnames : (schema.fields.map Schema.Field.name).Nodup)
    (hrecord : RecordOf (some schema) headers cellsOf record) {field : Schema.Field}
    (h : field ∈ schema.fields) (hcolumn : field.name ∈ headers) (hne : field.name ≠ "")
    (hdot : '.' ∉ field.name.toList) : field.Admitted record := by
  obtain ⟨-, -, -, hvalues⟩ := hrecord
  obtain ⟨i, hi⟩ := exists_lastColumn hcolumn
  obtain ⟨v, hget, hv⟩ := hvalues i field.name hi
  have htype := columnType?_of_mem hnames h
  refine field.admitted_of_get? hne hdot hget ?_
  rcases hv with ⟨hsome, htyped⟩ | ⟨hnone, -⟩
  · cases hsome.symm.trans htype
    exact htyped.holds
  · cases hnone.symm.trans htype

/-- The records that are read of a table under a schema pass the check of the schema, if its names
are distinct, not empty and without dots. -/
theorem checkRecords_recordsOf {schema : Schema} {table : Table} {records : List Value}
    (hnames : (schema.fields.map Schema.Field.name).Nodup)
    (hplain : ∀ field ∈ schema.fields, field.name ≠ "" ∧ '.' ∉ field.name.toList)
    (h : recordsOf (some schema) table = .ok records) :
    Load.checkRecords schema 1 records = .ok () := by
  have hcovered : Covered (some schema) table.headers := (recordsOf_eq_ok_iff.1 h).1
  refine Load.checkRecords_eq_ok_iff.2 fun record hrecord => ?_
  obtain ⟨cellsOf, -, hof⟩ := exists_recordOf h hrecord
  refine ⟨?_, fun field hfield => ?_⟩
  · cases hof
    exact ⟨_, rfl⟩
  · obtain ⟨hne, hdot⟩ := hplain field hfield
    exact hof.admitted hnames hfield (hcovered schema rfl field hfield) hne hdot

/-- Cells that are missing or replaced leave nulls and numbers that the check accepts. -/
theorem checkRecords_recordsOf_ragged :
    let schema : Schema := ⟨[⟨"a", .int64⟩, ⟨"b", .bool⟩]⟩
    let records := [Value.object [("a", .null), ("b", .null)],
      .object [("a", .number (.int 2 (by decide))), ("b", .bool true)]]
    recordsOf (some schema) ⟨["a", "b", "a"], [.ok ["1"], .ok ["", "yes", " 2 ", "x"]]⟩ =
        .ok records ∧
      Load.checkRecords schema 1 records = .ok () := by
  intro schema records
  have hread : recordsOf (some schema)
      ⟨["a", "b", "a"], [.ok ["1"], .ok ["", "yes", " 2 ", "x"]]⟩ = .ok records := by
    rfl
  exact ⟨hread, checkRecords_recordsOf (by decide) (by decide) hread⟩

end Csv

end RecordFlow
