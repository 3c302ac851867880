import RecordFlow.Proofs.Load.Conformance
import RecordFlow.Proofs.Text.Lines

/-!
# Documents on lines

A text that is no single document holds one record on each line that is not blank, or its first line
that is neither blank nor a document is reported (`Load.ofJson_of_no_document`). The lines are
numbered in the trimmed text, so the blank lines that the text starts with are not counted
(`Load.line_miscounted`).
-/

namespace RecordFlow.Load

/-- The first line that is neither blank nor a document, after so many other lines. -/
inductive FirstBad (read : List Char → Except Json.ReadError Value) :
    List (List Char) → Nat → Json.ReadError → Prop where
  | here {line : List Char} (rest : List (List Char)) {e : Json.ReadError} (hne : line ≠ [])
    (hline : read line = .error e) : FirstBad read (line :: rest) 0 e
  | later {line : List Char} {rest : List (List Char)} {k : Nat} {e : Json.ReadError}
    (hline : line ≠ [] → ∃ v, read line = .ok v) (hrest : FirstBad read rest k e) :
    FirstBad read (line :: rest) (k + 1) e

/-- The lines that are not blank are documents of the records. -/
def Documents (read : List Char → Except Json.ReadError Value) (lines : List (List Char))
    (records : List Value) : Prop :=
  List.Forall₂ (fun line v => read line = .ok v) (lines.filter (· ≠ [])) records

variable {read : List Char → Except Json.ReadError Value}
variable {lines : List (List Char)} {records : List Value} {e : Json.ReadError} {k number : Nat}

/-! ## Blank lines at the ends -/

theorem documents_nil_cons :
    Documents read ([] :: lines) records ↔ Documents read lines records := Iff.rfl

theorem documents_cons {line : List Char} (hne : line ≠ []) :
    Documents read (line :: lines) records ↔
      ∃ v rest, read line = .ok v ∧ Documents read lines rest ∧ records = v :: rest := by
  unfold Documents
  rw [List.filter_cons_of_pos (by simpa using hne), List.forall₂_cons_left_iff]

/-- Blank lines hold no documents. -/
theorem documents_blank_lines (m n : Nat) :
    Documents read (List.replicate m [] ++ lines ++ List.replicate n []) records ↔
      Documents read lines records := by
  unfold Documents
  simp

theorem firstBad_nil_cons :
    FirstBad read ([] :: lines) k e ↔ ∃ i, k = i + 1 ∧ FirstBad read lines i e := by
  constructor
  · intro h
    cases h with
    | here _ hne _ => exact absurd rfl hne
    | later _ hrest => exact ⟨_, rfl, hrest⟩
  · rintro ⟨i, rfl, h⟩
    exact .later (fun hne => absurd rfl hne) h

/-- Blank lines before the bad one count. -/
theorem firstBad_replicate_append (m : Nat) :
    FirstBad read (List.replicate m [] ++ lines) k e ↔
      ∃ i, k = i + m ∧ FirstBad read lines i e := by
  induction m generalizing k with
  | zero => simp
  | succ m ih =>
    rw [List.replicate_succ, List.cons_append, firstBad_nil_cons]
    constructor
    · rintro ⟨i, rfl, h⟩
      obtain ⟨j, rfl, hj⟩ := ih.1 h
      exact ⟨j, rfl, hj⟩
    · rintro ⟨i, rfl, h⟩
      exact ⟨i + m, rfl, ih.2 ⟨i, rfl, h⟩⟩

theorem not_firstBad_replicate (n : Nat) : ¬ FirstBad read (List.replicate n []) k e := by
  intro h
  rw [← List.append_nil (List.replicate n []), firstBad_replicate_append] at h
  obtain ⟨i, -, hnil⟩ := h
  cases hnil

/-- Blank lines after all others do not matter. -/
theorem firstBad_append_replicate (n : Nat) :
    FirstBad read (lines ++ List.replicate n []) k e ↔ FirstBad read lines k e := by
  induction lines generalizing k with
  | nil => exact iff_of_false (not_firstBad_replicate n) nofun
  | cons line rest ih =>
    constructor
    · intro h
      cases h with
      | here _ hne hline => exact .here rest hne hline
      | later hline hrest => exact .later hline (ih.1 hrest)
    · intro h
      cases h with
      | here _ hne hline => exact .here _ hne hline
      | later hline hrest => exact .later hline (ih.2 hrest)

/-! ## Reading line by line -/

theorem lineRecords_eq_ok_iff :
    lineRecords read number lines = .ok records ↔ Documents read (lines.map Text.trim) records := by
  induction lines generalizing number records with
  | nil => cases records <;> simp [lineRecords, Documents]
  | cons line rest ih =>
    rw [List.map_cons]
    unfold lineRecords
    dsimp only
    by_cases hblank : Text.trim line = []
    · rw [if_pos hblank, hblank, documents_nil_cons]
      exact ih
    · rw [if_neg hblank, documents_cons hblank]
      cases hline : read (Text.trim line) with
      | error e => simp
      | ok v =>
        dsimp only
        rw [bind_eq_ok_iff]
        simp only [ih]
        constructor
        · rintro ⟨others, hothers, ⟨⟩⟩
          exact ⟨v, others, rfl, hothers, rfl⟩
        · rintro ⟨_, others, ⟨⟩, hothers, rfl⟩
          exact ⟨others, hothers, rfl⟩

theorem lineRecords_eq_error_iff {err : Error} :
    lineRecords read number lines = .error err ↔
      ∃ k e, FirstBad read (lines.map Text.trim) k e ∧
        err = .schemaMismatch (.badLine (number + k) e) := by
  induction lines generalizing number with
  | nil => exact iff_of_false nofun nofun
  | cons line rest ih =>
    rw [List.map_cons]
    unfold lineRecords
    dsimp only
    by_cases hblank : Text.trim line = []
    · rw [if_pos hblank, hblank, ih]
      simp only [firstBad_nil_cons]
      constructor
      · rintro ⟨k, e, h, rfl⟩
        exact ⟨k + 1, e, ⟨k, rfl, h⟩, by rw [Nat.add_right_comm]; rfl⟩
      · rintro ⟨_, e, ⟨k, rfl, h⟩, rfl⟩
        exact ⟨k, e, h, by rw [Nat.add_right_comm]; rfl⟩
    · rw [if_neg hblank]
      cases hline : read (Text.trim line) with
      | error e =>
        dsimp only
        constructor
        · rintro ⟨⟩
          exact ⟨0, e, .here _ hblank hline, rfl⟩
        · rintro ⟨k, e', h, rfl⟩
          cases h with
          | here _ _ hbad =>
            cases hline.symm.trans hbad
            rfl
          | later hgood _ =>
            obtain ⟨v, hv⟩ := hgood hblank
            rw [hline] at hv
            cases hv
      | ok v =>
        dsimp only
        rw [bind_pure_eq_error_iff, ih]
        constructor
        · rintro ⟨k, e, h, rfl⟩
          exact ⟨k + 1, e, .later (fun _ => ⟨v, hline⟩) h, by rw [Nat.add_right_comm]; rfl⟩
        · rintro ⟨k, e, h, rfl⟩
          cases h with
          | here _ _ hbad =>
            rw [hline] at hbad
            cases hbad
          | later _ hrest => exact ⟨_, e, hrest, by rw [Nat.add_right_comm]; rfl⟩

/-! ## Lines of the whole text -/

variable {text : List Char}

/-- The lines of a text are read as they stand after trimming the whole. -/
theorem documents_trim :
    Documents read ((Text.lines (Text.trim text)).map Text.trim) records ↔
      Documents read ((Text.lines text).map Text.trim) records := by
  obtain ⟨m, n, hlines⟩ := Text.map_trim_lines_trim text
  rw [← documents_blank_lines (Text.leadingFeeds text) n, ← hlines]
  exact documents_blank_lines 0 m

/-- Trimming the whole takes the first blank lines away. -/
theorem firstBad_trim :
    FirstBad read ((Text.lines text).map Text.trim) k e ↔
      ∃ i, k = i + Text.leadingFeeds text ∧
        FirstBad read ((Text.lines (Text.trim text)).map Text.trim) i e := by
  obtain ⟨m, n, hlines⟩ := Text.map_trim_lines_trim text
  rw [← firstBad_append_replicate m, hlines, firstBad_append_replicate, firstBad_replicate_append]

theorem jsonRecords_of_no_document (hblank : ¬ Text.Blank text)
    (hwhole : ∃ e, read (Text.trim text) = .error e) :
    jsonRecords read text = lineRecords read 1 (Text.lines (Text.trim text)) := by
  obtain ⟨e, he⟩ := hwhole
  unfold jsonRecords
  dsimp only
  rw [if_neg fun hnil => hblank (Text.trim_eq_nil_iff.1 hnil), he]

/-- The result of loading a text that is neither blank nor one document. All lines but the blank
ones are documents, and these are the records, or the first line that is none is reported by its
number, which does not count the lines that end among the blanks at the start of the text. -/
theorem ofJson_of_no_document (hblank : ¬ Text.Blank text)
    (hwhole : ∃ e, read (Text.trim text) = .error e) :
    let lines := (Text.lines text).map Text.trim
    (∀ records, (ofJson read none text).2 = .ok records ↔ Documents read lines records) ∧
      ((∃ records, Documents read lines records) ∨ ∃ k e, FirstBad read lines k e) ∧
      ∀ k e, FirstBad read lines k e → ∃ number, number + Text.leadingFeeds text = k + 1 ∧
        (ofJson read none text).2 = .error (.schemaMismatch (.badLine number e)) := by
  intro lines
  have hload : (ofJson read none text).2 = lineRecords read 1 (Text.lines (Text.trim text)) := by
    rw [ofJson_none_snd, jsonRecords_of_no_document hblank hwhole]
  have hdocuments : ∀ records,
      (ofJson read none text).2 = .ok records ↔ Documents read lines records := by
    intro records
    rw [hload, lineRecords_eq_ok_iff, documents_trim]
  refine ⟨hdocuments, ?_, fun k e hbad => ?_⟩
  · cases hresult : (ofJson read none text).2 with
    | ok records => exact .inl ⟨records, (hdocuments records).1 hresult⟩
    | error err =>
      obtain ⟨i, e, hbad, -⟩ := lineRecords_eq_error_iff.1 (hload.symm.trans hresult)
      exact .inr ⟨_, e, firstBad_trim.2 ⟨i, rfl, hbad⟩⟩
  · obtain ⟨i, rfl, hi⟩ := firstBad_trim.1 hbad
    refine ⟨1 + i, by omega, ?_⟩
    rw [hload]
    exact lineRecords_eq_error_iff.2 ⟨i, e, hi, rfl⟩

/-- Blank lines between the others count. -/
theorem ofJson_of_no_document_of_fourth_line :
    let text := "\x7b\x7d\r\n \n3\nx".toList
    let fault : Json.ReadError := ⟨.expectedValue, ⟨1, 1⟩⟩
    ¬ Text.Blank text ∧ (∃ e, Json.readDocument (Text.trim text) = .error e) ∧
      FirstBad Json.readDocument ((Text.lines text).map Text.trim) 3 fault ∧
      (ofJson Json.readDocument none text).2 = .error (.schemaMismatch (.badLine 4 fault)) := by
  intro text fault
  have hblank : ¬ Text.Blank text := fun h => absurd (h '3' (by decide)) (by decide)
  have hwhole : ∃ e, Json.readDocument (Text.trim text) = .error e := ⟨_, rfl⟩
  have hbad : FirstBad Json.readDocument ((Text.lines text).map Text.trim) 3 fault :=
    .later (fun _ => ⟨_, rfl⟩) (.later (fun h => absurd rfl h) (.later (fun _ => ⟨_, rfl⟩)
      (.here [] (by decide) rfl)))
  obtain ⟨number, hnumber, hload⟩ := (ofJson_of_no_document hblank hwhole).2.2 3 fault hbad
  have hfeeds : Text.leadingFeeds text = 0 := rfl
  rw [hfeeds] at hnumber
  cases hnumber
  exact ⟨hblank, hwhole, hbad, hload⟩

/-- After an empty first line, the third line is reported as the second. -/
theorem line_miscounted :
    ¬ ∀ text k e, ¬ Text.Blank text → (∃ e, Json.readDocument (Text.trim text) = .error e) →
      FirstBad Json.readDocument ((Text.lines text).map Text.trim) k e →
        (ofJson Json.readDocument none text).2 = .error (.schemaMismatch (.badLine (k + 1) e)) := by
  intro h
  let text := "\n\x7b\x7d\nx".toList
  let fault : Json.ReadError := ⟨.expectedValue, ⟨1, 1⟩⟩
  have hbad : FirstBad Json.readDocument ((Text.lines text).map Text.trim) 2 fault :=
    .later (fun h => absurd rfl h) (.later (fun _ => ⟨_, rfl⟩) (.here [] (by decide) rfl))
  have hclaimed := h text 2 fault (fun hblank => absurd (hblank 'x' (by decide)) (by decide))
    ⟨_, rfl⟩ hbad
  have hload : (ofJson Json.readDocument none text).2 =
      .error (.schemaMismatch (.badLine 2 fault)) := by
    dsimp +zetaDelta only
    rfl
  rw [hload] at hclaimed
  cases hclaimed

end RecordFlow.Load
