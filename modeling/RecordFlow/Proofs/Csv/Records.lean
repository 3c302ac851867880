import RecordFlow.Load.File
import RecordFlow.Proofs.Attempts
import RecordFlow.Proofs.Csv.Cell
import RecordFlow.Proofs.Value.Fields
import RecordFlow.Proofs.Value.Presence

/-!
# The records of a table

Each row of a table is read as a record that has the names of the columns and under each the value
of the last column of the name (`Csv.RecordOf`). Every cell under a typed column has to be of its
type, also one whose value another column of the name replaces; the first that is not, row by row,
is reported (`Csv.Faulty`). What is read of a table is `Csv.recordsOf_tabulates`.
-/

namespace RecordFlow.Csv

/-! ## Cells of a row -/

/-- The cell of a row in the column of a position, empty if the row ends before it. -/
def cellAt (cells : List String) (i : Nat) : String := cells[i]?.getD ""

/-- The type of the first field of the schema that has the name of a column. -/
def columnType? (schema : Option Schema) (column : String) : Option DataType :=
  (schema.bind (·.field? column)).map Schema.Field.dataType

/-- A cell stands for a value under a column: one of the type of the column, or, if it has none, the
one that the cell looks like. -/
inductive Holds (schema : Option Schema) (column raw : String) (v : Value) : Prop where
  | typed {t : DataType} (htype : columnType? schema column = some t) (h : Cell.Typed t raw v) :
    Holds schema column raw v
  | inferred (htype : columnType? schema column = none) (h : Cell.Inferred raw v) :
    Holds schema column raw v

/-- The cell at a position is of the type of its column, if the column has one. -/
def ReadableAt (schema : Option Schema) (headers cells : List String) (i : Nat) : Prop :=
  ∀ column t, headers[i]? = some column → columnType? schema column = some t →
    ∃ v, Cell.Typed t (cellAt cells i) v

variable {schema : Option Schema} {headers cells : List String} {column raw : String} {v w : Value}
  {row i : Nat} {e : Error}

theorem exists_of_columnType? {s : Schema} {t : DataType}
    (h : columnType? (some s) column = some t) :
    ∃ field ∈ s.fields, field.name = column ∧ field.dataType = t := by
  obtain ⟨field, hfield, ht⟩ := Option.map_eq_some_iff.1 h
  have hfind : s.fields.find? (·.name == column) = some field := hfield
  exact ⟨field, List.mem_of_find?_eq_some hfind, by simpa using List.find?_some hfind, ht⟩

theorem cellValue_of_typed {t : DataType} (h : columnType? schema column = some t) :
    cellValue schema row column raw =
      (Cell.read t raw).mapError (.badCell row column raw) := by
  obtain ⟨field, hfield, rfl⟩ := Option.map_eq_some_iff.1 h
  unfold cellValue
  rw [hfield]
  dsimp only
  cases Cell.read field.dataType raw <;> rfl

theorem cellValue_of_untyped (h : columnType? schema column = none) :
    cellValue schema row column raw = .ok (Cell.infer raw) := by
  unfold cellValue
  rw [Option.map_eq_none_iff.1 h]

theorem cellValue_eq_ok_iff :
    cellValue schema row column raw = .ok v ↔ Holds schema column raw v := by
  cases htype : columnType? schema column with
  | none =>
    rw [cellValue_of_untyped htype, Except.ok.injEq, Cell.infer_eq_iff]
    constructor
    · exact .inferred htype
    · rintro (⟨hsome, -⟩ | ⟨-, h⟩)
      · cases htype.symm.trans hsome
      · exact h
  | some t =>
    have hread : cellValue schema row column raw = .ok v ↔ Cell.read t raw = .ok v := by
      rw [cellValue_of_typed htype]
      cases Cell.read t raw <;> simp [Except.mapError]
    rw [hread, Cell.read_eq_ok_iff]
    constructor
    · exact .typed htype
    · rintro (⟨hsome, h⟩ | ⟨hnone, -⟩)
      · cases htype.symm.trans hsome
        exact h
      · cases htype.symm.trans hnone

theorem cellValue_eq_error_iff :
    cellValue schema row column raw = .error e ↔
      ∃ t fault, columnType? schema column = some t ∧ Cell.read t raw = .error fault ∧
        e = .badCell row column raw fault := by
  cases htype : columnType? schema column with
  | none => simp [cellValue_of_untyped htype]
  | some t =>
    rw [cellValue_of_typed htype]
    cases hread : Cell.read t raw <;> simp [hread, Except.mapError, eq_comm]

theorem Holds.unique (hv : Holds schema column raw v) (hw : Holds schema column raw w) : v = w := by
  have hreadv : cellValue schema 0 column raw = .ok v := cellValue_eq_ok_iff.2 hv
  have hreadw : cellValue schema 0 column raw = .ok w := cellValue_eq_ok_iff.2 hw
  exact Except.ok.inj (hreadv.symm.trans hreadw)

theorem readableAt_iff :
    ReadableAt schema headers cells i ↔
      ∀ column, headers[i]? = some column → ∃ v, Holds schema column (cellAt cells i) v := by
  constructor
  · intro h column hcolumn
    cases htype : columnType? schema column with
    | none => exact ⟨_, .inferred htype (Cell.inferred_infer _)⟩
    | some t =>
      obtain ⟨v, hv⟩ := h column t hcolumn htype
      exact ⟨v, .typed htype hv⟩
  · intro h column t hcolumn htype
    rcases h column hcolumn with ⟨v, ⟨hsome, hv⟩ | ⟨hnone, -⟩⟩
    · cases htype.symm.trans hsome
      exact ⟨v, hv⟩
    · cases htype.symm.trans hnone

/-! ## Fields of a row -/

/-- The columns, each with the cell of a row under it. -/
def namedCells : List String → List String → List (String × String)
  | [], _ => []
  | column :: columns, cells => (column, cells.head?.getD "") :: namedCells columns cells.tail

theorem getElem?_namedCells (headers cells : List String) (i : Nat) :
    (namedCells headers cells)[i]? = headers[i]?.map fun column => (column, cellAt cells i) := by
  induction headers generalizing cells i with
  | nil => rfl
  | cons column headers ih =>
    cases i with
    | zero => cases cells <;> rfl
    | succ i =>
      rw [namedCells, List.getElem?_cons_succ, List.getElem?_cons_succ, ih]
      cases cells <;> rfl

theorem getElem?_namedCells_eq_some_iff {p : String × String} :
    (namedCells headers cells)[i]? = some p ↔
      headers[i]? = some p.1 ∧ p.2 = cellAt cells i := by
  rw [getElem?_namedCells, Option.map_eq_some_iff]
  constructor
  · rintro ⟨column, hcolumn, rfl⟩
    exact ⟨hcolumn, rfl⟩
  · rintro ⟨hcolumn, hcell⟩
    exact ⟨p.1, hcolumn, Prod.ext rfl hcell.symm⟩

/-- The fields of a row are read cell by cell. -/
theorem rowFields_eq_mapM (schema : Option Schema) (row : Nat) (headers cells : List String) :
    rowFields schema row headers cells =
      (namedCells headers cells).mapM fun p =>
        (cellValue schema row p.1 p.2).map fun v => (p.1, v) := by
  induction headers generalizing cells with
  | nil => rfl
  | cons column headers ih =>
    rw [namedCells, List.mapM_cons, rowFields, ih]
    cases cellValue schema row column (cells.head?.getD "") <;> rfl

theorem rowFields_eq_ok_iff {fields : List (String × Value)} :
    rowFields schema row headers cells = .ok fields ↔
      fields.length = headers.length ∧ ∀ (i : Nat) column, headers[i]? = some column →
        ∃ v, fields[i]? = some (column, v) ∧ Holds schema column (cellAt cells i) v := by
  have hlength : (namedCells headers cells).length = headers.length := by
    induction headers generalizing cells with
    | nil => rfl
    | cons column headers ih => exact congrArg Nat.succ ih
  rw [rowFields_eq_mapM, mapM_eq_ok_iff_getElem?, hlength]
  simp only [getElem?_namedCells_eq_some_iff, map_eq_ok_iff, cellValue_eq_ok_iff]
  refine and_congr_right fun _ => ⟨fun h i column hcolumn => ?_, fun h i p hp => ?_⟩
  · obtain ⟨_, hfield, v, hv, rfl⟩ := h i (column, cellAt cells i) ⟨hcolumn, rfl⟩
    exact ⟨v, hfield, hv⟩
  · obtain ⟨v, hfield, hv⟩ := h i p.1 hp.1
    exact ⟨_, hfield, v, hp.2 ▸ hv, rfl⟩

/-- The first cell that is not of the type of its column is at fault. -/
theorem rowFields_eq_error_iff :
    rowFields schema row headers cells = .error e ↔
      ∃ i column t fault, headers[i]? = some column ∧
        (∀ j, j < i → ReadableAt schema headers cells j) ∧ columnType? schema column = some t ∧
        Cell.read t (cellAt cells i) = .error fault ∧
        e = .badCell row column (cellAt cells i) fault := by
  rw [rowFields_eq_mapM, mapM_eq_error_iff_getElem?]
  simp only [getElem?_namedCells_eq_some_iff, map_eq_ok_iff, cellValue_eq_ok_iff, map_eq_error_iff,
    cellValue_eq_error_iff, readableAt_iff]
  constructor
  · rintro ⟨i, p, ⟨hcolumn, hcell⟩, hbefore, t, fault, htype, hread, rfl⟩
    rw [hcell] at hread ⊢
    refine ⟨i, p.1, t, fault, hcolumn, fun j hj column hother => ?_, htype, hread, rfl⟩
    obtain ⟨_, v, hv, -⟩ := hbefore j (column, cellAt cells j) hj ⟨hother, rfl⟩
    exact ⟨v, hv⟩
  · rintro ⟨i, column, t, fault, hcolumn, hbefore, htype, hread, rfl⟩
    refine ⟨i, (column, cellAt cells i), ⟨hcolumn, rfl⟩, fun j p hj hp => ?_, t, fault, htype,
      hread, rfl⟩
    obtain ⟨v, hv⟩ := hbefore j hj p.1 hp.1
    exact ⟨_, v, hp.2 ▸ hv, rfl⟩

/-! ## Records of rows -/

/-- The last column of a name. -/
def LastColumn (headers : List String) (column : String) (i : Nat) : Prop :=
  headers[i]? = some column ∧ ∀ j, i < j → headers[j]? ≠ some column

theorem exists_lastColumn (h : column ∈ headers) : ∃ i, LastColumn headers column i := by
  induction headers with
  | nil => cases h
  | cons first headers ih =>
    by_cases hlater : column ∈ headers
    · obtain ⟨i, hi, hlast⟩ := ih hlater
      refine ⟨i + 1, hi, fun j hj => ?_⟩
      obtain ⟨j, rfl⟩ := Nat.exists_eq_succ_of_ne_zero (Nat.ne_of_gt (Nat.zero_lt_of_lt hj))
      exact hlast j (Nat.lt_of_succ_lt_succ hj)
    · refine ⟨0, by rw [(List.mem_cons.1 h).resolve_right hlater]; rfl, fun j hj hcolumn => ?_⟩
      obtain ⟨j, rfl⟩ := Nat.exists_eq_succ_of_ne_zero (Nat.ne_of_gt hj)
      exact hlater (List.mem_of_getElem? hcolumn)

/-- The record of a row: an object with the names of the columns, each with the value of the cell in
the last column of the name. All cells under typed columns are of their types. -/
inductive RecordOf (schema : Option Schema) (headers : List String) :
    Except ReadError (List String) → Value → Prop where
  | row {cells : List String} {fields : Fields Value}
    (hreadable : ∀ i, ReadableAt schema headers cells i) (hascending : Fields.Ascending fields)
    (hnames : ∀ name, Fields.contains fields name = true ↔ name ∈ headers)
    (hvalues : ∀ i column, LastColumn headers column i →
      ∃ v, Fields.get? fields column = some v ∧ Holds schema column (cellAt cells i) v) :
    RecordOf schema headers (.ok cells) (.object fields)

/-- What is wrong with the row of an index: it could not be read, or a cell of it, after others that
are of the types of their columns, is not. The header is row one, so the first row is two. -/
inductive Faulty (schema : Option Schema) (headers : List String) (k : Nat) :
    Except ReadError (List String) → Error → Prop where
  | unread (e : ReadError) : Faulty schema headers k (.error e) (.csv (.text e))
  | cell {cells : List String} {i : Nat} {column : String} {t : DataType} {fault : CellFault}
    (hcolumn : headers[i]? = some column)
    (hbefore : ∀ j, j < i → ReadableAt schema headers cells j)
    (htype : columnType? schema column = some t)
    (hfault : Cell.read t (cellAt cells i) = .error fault) :
    Faulty schema headers k (.ok cells) (.badCell (k + 2) column (cellAt cells i) fault)

variable {cellsOf : Except ReadError (List String)} {record other : Value}

theorem get?_eq_none_of_not_contains {fields : Fields Value} {name : String}
    (h : ¬ Fields.contains fields name = true) : Fields.get? fields name = none :=
  Option.eq_none_iff_forall_ne_some.2 fun v hv => h (Value.contains_iff_get?.2 ⟨v, hv⟩)

/-- A row stands for one record at most. -/
theorem RecordOf.unique (h : RecordOf schema headers cellsOf record)
    (hother : RecordOf schema headers cellsOf other) : record = other := by
  obtain ⟨-, hascending, hnames, hvalues⟩ := h
  obtain ⟨-, hascending', hnames', hvalues'⟩ := hother
  refine congrArg Value.object (Fields.eq_of_get? hascending hascending' fun name => ?_)
  by_cases hname : name ∈ headers
  · obtain ⟨i, hi⟩ := exists_lastColumn hname
    obtain ⟨v, hv, hholds⟩ := hvalues i name hi
    obtain ⟨w, hw, hholds'⟩ := hvalues' i name hi
    rw [hv, hw, hholds.unique hholds']
  · rw [get?_eq_none_of_not_contains fun h => hname ((hnames name).1 h),
      get?_eq_none_of_not_contains fun h => hname ((hnames' name).1 h)]

/-- A row is read and each of its cells under a typed column is of the type. -/
def Sound (schema : Option Schema) (headers : List String)
    (cellsOf : Except ReadError (List String)) : Prop :=
  ∃ cells, cellsOf = .ok cells ∧ ∀ i, ReadableAt schema headers cells i

/-- What is read of one row. -/
def rowRecord (schema : Option Schema) (headers : List String) (row : Nat)
    (cellsOf : Except ReadError (List String)) : Except Error Value :=
  match cellsOf with
  | .error e => .error (.csv (.text e))
  | .ok cells =>
    (rowFields schema row headers cells).map fun fields => .object (Fields.ofList fields)

theorem recordOf_of_rowFields {entries : List (String × Value)}
    (h : rowFields schema row headers cells = .ok entries) :
    RecordOf schema headers (.ok cells) (.object (Fields.ofList entries)) := by
  obtain ⟨hlength, hentries⟩ := rowFields_eq_ok_iff.1 h
  have hnamed : ∀ (j : Nat) p, entries[j]? = some p → headers[j]? = some p.1 := by
    intro j p hp
    have hj : j < headers.length := hlength ▸ (List.getElem?_eq_some_iff.1 hp).1
    obtain ⟨v, hv, -⟩ := hentries j headers[j] (List.getElem?_eq_getElem hj)
    rw [List.getElem?_eq_getElem hj, Option.some.inj (hp.symm.trans hv)]
  have hvalues : ∀ i column, LastColumn headers column i →
      ∃ v, Fields.get? (Fields.ofList entries) column = some v ∧
        Holds schema column (cellAt cells i) v := by
    rintro i column ⟨hcolumn, hlast⟩
    obtain ⟨v, hentry, hv⟩ := hentries i column hcolumn
    refine ⟨v, Fields.get?_ofList_eq_some_iff.2 ⟨i, hentry, fun j p hj hp hname => ?_⟩, hv⟩
    exact hlast j hj (hname ▸ hnamed j p hp)
  refine .row ?_ (Fields.ascending_ofList entries) (fun name => ?_) hvalues
  · refine fun i => readableAt_iff.2 fun column hcolumn => ?_
    obtain ⟨v, -, hv⟩ := hentries i column hcolumn
    exact ⟨v, hv⟩
  · rw [Value.contains_iff_get?]
    constructor
    · rintro ⟨v, hv⟩
      obtain ⟨i, hentry, -⟩ := Fields.get?_ofList_eq_some_iff.1 hv
      exact List.mem_of_getElem? (hnamed i _ hentry)
    · intro hname
      obtain ⟨i, hi⟩ := exists_lastColumn hname
      obtain ⟨v, hv, -⟩ := hvalues i name hi
      exact ⟨v, hv⟩

theorem exists_rowFields (h : ∀ i, ReadableAt schema headers cells i) :
    ∃ entries, rowFields schema row headers cells = .ok entries := by
  cases hfields : rowFields schema row headers cells with
  | ok entries => exact ⟨entries, rfl⟩
  | error e =>
    obtain ⟨i, column, t, fault, hcolumn, -, htype, hfault, -⟩ := rowFields_eq_error_iff.1 hfields
    obtain ⟨v, hv⟩ := h i column t hcolumn htype
    cases hfault.symm.trans (Cell.read_eq_ok_iff.2 hv)

theorem rowRecord_eq_ok_iff :
    rowRecord schema headers row cellsOf = .ok record ↔ RecordOf schema headers cellsOf record := by
  constructor
  · intro h
    cases cellsOf with
    | error e => cases h
    | ok cells =>
      obtain ⟨entries, hentries, rfl⟩ := map_eq_ok_iff.1 h
      exact recordOf_of_rowFields hentries
  · intro h
    cases h with
    | row hreadable hascending hnames hvalues =>
      -- Some record is read, and the row has no other.
      obtain ⟨entries, hentries⟩ : ∃ entries, rowFields schema row headers _ = .ok entries :=
        exists_rowFields hreadable
      refine map_eq_ok_iff.2 ⟨entries, hentries, ?_⟩
      exact (recordOf_of_rowFields hentries).unique (.row hreadable hascending hnames hvalues)

theorem exists_rowRecord_iff :
    (∃ record, rowRecord schema headers row cellsOf = .ok record) ↔
      Sound schema headers cellsOf := by
  constructor
  · rintro ⟨record, h⟩
    cases rowRecord_eq_ok_iff.1 h with
    | row hreadable => exact ⟨_, rfl, hreadable⟩
  · rintro ⟨cells, rfl, hreadable⟩
    obtain ⟨entries, hentries⟩ : ∃ entries, rowFields schema row headers cells = .ok entries :=
      exists_rowFields hreadable
    exact ⟨_, map_eq_ok_iff.2 ⟨entries, hentries, rfl⟩⟩

theorem rowRecord_eq_error_iff {k : Nat} :
    rowRecord schema headers (k + 2) cellsOf = .error e ↔ Faulty schema headers k cellsOf e := by
  cases cellsOf with
  | error fault =>
    constructor
    · rintro ⟨⟩
      exact .unread fault
    · rintro ⟨⟩
      rfl
  | ok cells =>
    refine map_eq_error_iff.trans (rowFields_eq_error_iff.trans ⟨?_, ?_⟩)
    · rintro ⟨i, column, t, fault, hcolumn, hbefore, htype, hfault, rfl⟩
      exact .cell hcolumn hbefore htype hfault
    · rintro (⟨-⟩ | ⟨hcolumn, hbefore, htype, hfault⟩)
      exact ⟨_, _, _, _, hcolumn, hbefore, htype, hfault, rfl⟩

/-! ## Records of a table -/

variable {rows : List (Except ReadError (List String))} {records : List Value} {table : Table}
  {field : Schema.Field}

/-- The records of rows are read row by row. -/
theorem rowRecords_eq_mapM (schema : Option Schema) (headers : List String) (row : Nat)
    (rows : List (Except ReadError (List String))) :
    rowRecords schema headers row rows =
      (rows.zipIdx row).mapM fun p => rowRecord schema headers p.2 p.1 := by
  induction rows generalizing row with
  | nil => rfl
  | cons cellsOf rows ih =>
    rw [List.zipIdx_cons, List.mapM_cons, ← ih]
    cases cellsOf with
    | error e => rfl
    | ok cells =>
      simp only [rowRecords, rowRecord]
      cases rowFields schema row headers cells <;> rfl

theorem rowRecords_eq_ok_iff :
    rowRecords schema headers row rows = .ok records ↔
      List.Forall₂ (RecordOf schema headers) rows records := by
  rw [rowRecords_eq_mapM, mapM_eq_ok_iff]
  simp only [rowRecord_eq_ok_iff]
  -- Whether a record is that of a row does not depend on the number of the row.
  rw [← List.forall₂_map_left_iff (f := Prod.fst), List.zipIdx_map_fst]

theorem exists_rowRecords_iff :
    (∃ records, rowRecords schema headers row rows = .ok records) ↔
      ∀ cellsOf ∈ rows, Sound schema headers cellsOf := by
  rw [rowRecords_eq_mapM, exists_mapM_eq_ok_iff]
  simp only [exists_rowRecord_iff]
  rw [← List.forall_mem_map (f := Prod.fst), List.zipIdx_map_fst]

/-- The error of rows is that of the first row at fault. -/
theorem rowRecords_eq_error_iff :
    rowRecords schema headers 2 rows = .error e ↔
      ∃ (k : Nat) (cellsOf : _), rows[k]? = some cellsOf ∧
        (∀ (j : Nat) before, j < k → rows[j]? = some before → Sound schema headers before) ∧
        Faulty schema headers k cellsOf e := by
  rw [rowRecords_eq_mapM, mapM_eq_error_iff_getElem?]
  simp only [List.getElem?_zipIdx, Option.map_eq_some_iff, exists_rowRecord_iff]
  constructor
  · rintro ⟨k, _, ⟨cellsOf, hrow, rfl⟩, hbefore, hfault⟩
    rw [Nat.add_comm] at hfault
    exact ⟨k, cellsOf, hrow, fun j before hj hother => hbefore j _ hj ⟨before, hother, rfl⟩,
      rowRecord_eq_error_iff.1 hfault⟩
  · rintro ⟨k, cellsOf, hrow, hbefore, hfault⟩
    refine ⟨k, _, ⟨cellsOf, hrow, rfl⟩, ?_, ?_⟩
    · rintro j _ hj ⟨before, hother, rfl⟩
      exact hbefore j before hj hother
    · rw [Nat.add_comm]
      exact rowRecord_eq_error_iff.2 hfault

/-- Every field of the schema is a column. -/
def Covered (schema : Option Schema) (headers : List String) : Prop :=
  ∀ s, schema = some s → ∀ field ∈ s.fields, field.name ∈ headers

/-- The first field of the schema that is no column. -/
def FirstMissing (schema : Option Schema) (headers : List String) (field : Schema.Field) : Prop :=
  ∃ s before after, schema = some s ∧ s.fields = before ++ field :: after ∧
    (∀ other ∈ before, other.name ∈ headers) ∧ field.name ∉ headers

theorem covered_iff :
    Covered schema headers ↔
      (schema.bind fun s => s.fields.find? fun f => !headers.contains f.name) = none := by
  cases schema <;> simp [Covered]

theorem firstMissing_iff :
    FirstMissing schema headers field ↔
      (schema.bind fun s => s.fields.find? fun f => !headers.contains f.name) = some field := by
  cases schema with
  | none => simp [FirstMissing]
  | some s =>
    simp only [FirstMissing, Option.some.injEq, Option.bind_some, List.find?_eq_some_iff_append,
      Bool.not_eq_true', Bool.not_not, List.contains_iff_mem, ← Bool.not_eq_true]
    constructor
    · rintro ⟨_, before, after, rfl, hfields, hbefore, hmissing⟩
      exact ⟨hmissing, before, after, hfields, hbefore⟩
    · rintro ⟨hmissing, before, after, hfields, hbefore⟩
      exact ⟨s, before, after, rfl, hfields, hbefore, hmissing⟩

theorem FirstMissing.not_covered (h : FirstMissing schema headers field) :
    ¬ Covered schema headers := by
  obtain ⟨s, before, after, rfl, hfields, -, hmissing⟩ := h
  intro hcovered
  exact hmissing (hcovered s rfl field (hfields ▸ List.mem_append_right _ List.mem_cons_self))

theorem recordsOf_of_covered (h : Covered schema table.headers) :
    recordsOf schema table = rowRecords schema table.headers 2 table.rows := by
  unfold recordsOf
  rw [covered_iff.1 h]

theorem recordsOf_of_firstMissing (h : FirstMissing schema table.headers field) :
    recordsOf schema table =
      .error (.schemaMismatch (.missingColumn field.name table.headers)) := by
  unfold recordsOf
  rw [firstMissing_iff.1 h]

theorem covered_or_firstMissing (schema : Option Schema) (headers : List String) :
    Covered schema headers ∨ ∃ field, FirstMissing schema headers field := by
  rw [covered_iff]
  simp only [firstMissing_iff]
  exact Option.eq_none_or_eq_some _

theorem exists_recordsOf_iff :
    (∃ records, recordsOf schema table = .ok records) ↔
      Covered schema table.headers ∧ ∀ row ∈ table.rows, Sound schema table.headers row := by
  rcases covered_or_firstMissing schema table.headers with hcovered | ⟨field, hmissing⟩
  · rw [recordsOf_of_covered hcovered, exists_rowRecords_iff, and_iff_right hcovered]
  · rw [recordsOf_of_firstMissing hmissing]
    exact iff_of_false (fun ⟨_, h⟩ => nomatch h) fun h => hmissing.not_covered h.1

theorem recordsOf_eq_ok_iff :
    recordsOf schema table = .ok records ↔
      Covered schema table.headers ∧
        List.Forall₂ (RecordOf schema table.headers) table.rows records := by
  rcases covered_or_firstMissing schema table.headers with hcovered | ⟨field, hmissing⟩
  · rw [recordsOf_of_covered hcovered, rowRecords_eq_ok_iff, and_iff_right hcovered]
  · rw [recordsOf_of_firstMissing hmissing]
    exact iff_of_false nofun fun h => hmissing.not_covered h.1

theorem recordsOf_eq_error_iff :
    recordsOf schema table = .error e ↔
      (∃ field, FirstMissing schema table.headers field ∧
        e = .schemaMismatch (.missingColumn field.name table.headers)) ∨
      Covered schema table.headers ∧ ∃ (k : Nat) (row : _), table.rows[k]? = some row ∧
        (∀ (j : Nat) before, j < k → table.rows[j]? = some before →
          Sound schema table.headers before) ∧
        Faulty schema table.headers k row e := by
  rcases covered_or_firstMissing schema table.headers with hcovered | ⟨field, hmissing⟩
  · rw [recordsOf_of_covered hcovered, rowRecords_eq_error_iff, and_iff_right hcovered]
    exact (or_iff_right fun ⟨_, hmissing, _⟩ => hmissing.not_covered hcovered).symm
  · rw [recordsOf_of_firstMissing hmissing]
    constructor
    · rintro ⟨⟩
      exact .inl ⟨field, hmissing, rfl⟩
    · rintro (⟨other, hother, rfl⟩ | ⟨hcovered, -⟩)
      · cases (firstMissing_iff.1 hmissing).symm.trans (firstMissing_iff.1 hother)
        rfl
      · exact absurd hcovered hmissing.not_covered

/-- Loading a text is making the records of its table. -/
theorem ofCsv_eq_recordsOf {read : List UInt8 → Except ReadError Table} {bytes : List UInt8}
    (h : read bytes = .ok table) :
    (Load.ofCsv read schema bytes).2 = recordsOf schema table := by
  unfold Load.ofCsv
  rw [h]
  dsimp only
  cases recordsOf schema table <;> rfl

/-- A table has records if every field of the schema is a column, every row was read and every cell
of a typed column, replaced or not, is of the type. They are then those that the rows stand for, in
order. Else the first missing column is reported, or what is wrong with the first row that is not
sound. The records of a table are what is loaded from its text, whatever reads the one as the
other. -/
theorem recordsOf_tabulates (schema : Option Schema) (table : Table) :
    ((∃ records, recordsOf schema table = .ok records) ↔
      Covered schema table.headers ∧ ∀ row ∈ table.rows, Sound schema table.headers row) ∧
    (∀ records, recordsOf schema table = .ok records ↔
      Covered schema table.headers ∧
        List.Forall₂ (RecordOf schema table.headers) table.rows records) ∧
    (∀ e, recordsOf schema table = .error e ↔
      (∃ field, FirstMissing schema table.headers field ∧
        e = .schemaMismatch (.missingColumn field.name table.headers)) ∨
      Covered schema table.headers ∧ ∃ (k : Nat) (row : _), table.rows[k]? = some row ∧
        (∀ (j : Nat) before, j < k → table.rows[j]? = some before →
          Sound schema table.headers before) ∧
        Faulty schema table.headers k row e) ∧
    ∀ (read : List UInt8 → Except ReadError Table) bytes, read bytes = .ok table →
      (Load.ofCsv read schema bytes).2 = recordsOf schema table :=
  ⟨exists_recordsOf_iff, fun _ => recordsOf_eq_ok_iff, fun _ => recordsOf_eq_error_iff,
    fun _ _ => ofCsv_eq_recordsOf⟩

/-- The cell at fault stands in a column that a later one of the name replaces. -/
theorem recordsOf_tabulates_replaced_cell :
    let bytes := "a,b,a\n1\n x,,1,y\n".toList.map fun c => UInt8.ofNat c.toNat
    let table : Table := ⟨["a", "b", "a"], [.ok ["1"], .ok [" x", "", "1", "y"]]⟩
    readTable { flexible := true } bytes = .ok table ∧
      (Load.ofCsv (readTable { flexible := true }) (some ⟨[⟨"a", .int64⟩]⟩) bytes).2 =
        .error (.badCell 3 "a" " x" (.numeral .invalidDigit)) := by
  intro bytes table
  have hread : readTable { flexible := true } bytes = .ok table := by
    dsimp +zetaDelta only
    rfl
  obtain ⟨-, -, herror, hload⟩ := recordsOf_tabulates (some ⟨[⟨"a", .int64⟩]⟩) table
  refine ⟨hread, (hload _ _ hread).trans ((herror _).2 (.inr ⟨?_, 1, _, rfl, ?_, ?_⟩))⟩
  · rintro s ⟨⟩ field hfield
    obtain rfl := List.mem_singleton.1 hfield
    exact List.mem_cons_self
  · intro j before hj hrow
    obtain rfl := Nat.lt_one_iff.1 hj
    cases hrow
    refine ⟨_, rfl, fun i column t _ h => ?_⟩
    obtain ⟨field, hfield, -, rfl⟩ := exists_of_columnType? h
    obtain rfl := List.mem_singleton.1 hfield
    cases i with
    | zero => exact ⟨.number (.int 1 (by decide)), Cell.read_eq_ok_iff.1 rfl⟩
    | succ i => exact ⟨.null, .blank _ nofun⟩
  · exact .cell (i := 0) rfl nofun rfl rfl

end RecordFlow.Csv
