import RecordFlow.Proofs.Text.Split
import RecordFlow.Proofs.Value.Path

/-!
# Fields that are there

Whether a path ends in a field is found by looking its last segment up in what the segments before
it lead to (`Value.hasField_iff`). That is not everywhere the same as whether the path leads
somewhere: an element of an array is no field, and a path of one dot and a name is looked up in the
record itself.
-/

namespace RecordFlow

/-! ## Paths and their last segments -/

namespace Path

variable {path : String} {before leaf : List Char}

/-- A dot and then a name without dots. -/
def Shortcut (path : String) : Prop := ∃ leaf, '.' ∉ leaf ∧ path.toList = '.' :: leaf

/-- The segments that lead to what the last segment is looked up in. -/
def holder (path : String) : List (List Char) :=
  if (segments path).dropLast = [[]] then [] else (segments path).dropLast

theorem segments_of_ne (h : path ≠ "") : segments path = Text.splitOn '.' path.toList :=
  if_neg fun hnil => h (String.toList_injective hnil)

theorem segments_ofList (text : List Char) :
    segments (String.ofList text) = if text = [] then [] else Text.splitOn '.' text := by
  unfold segments
  rw [String.toList_ofList]

theorem ne_of_toList_append (h : path.toList = before ++ '.' :: leaf) : path ≠ "" := by
  rintro rfl
  simp at h

theorem segments_of_dot (h : path.toList = before ++ '.' :: leaf) (hleaf : '.' ∉ leaf) :
    segments path = Text.splitOn '.' before ++ [leaf] := by
  rw [segments_of_ne (ne_of_toList_append h), h, Text.splitOn_append_cons,
    Text.splitOn_of_not_mem hleaf]

/-- What is before the last dot is a path to what the last segment is looked up in. -/
theorem holder_of_dot (h : path.toList = before ++ '.' :: leaf) (hleaf : '.' ∉ leaf) :
    holder path = segments (String.ofList before) := by
  have hnil : Text.splitOn '.' before = [[]] ↔ before = [] := by
    rw [Text.splitOn_eq]
    constructor
    · intro hsplit
      have hjoin : ['.'].intercalate (before.splitOn '.') = before := List.intercalate_splitOn '.'
      rw [hsplit] at hjoin
      simpa using hjoin.symm
    · rintro rfl
      rfl
  unfold holder
  rw [segments_of_dot h hleaf, List.dropLast_concat, segments_ofList]
  simp only [hnil]

theorem segments_of_not_dot (h : path ≠ "") (hdot : '.' ∉ path.toList) :
    segments path = [path.toList] := by
  rw [segments_of_ne h, Text.splitOn_of_not_mem hdot]

theorem holder_of_not_dot (h : path ≠ "") (hdot : '.' ∉ path.toList) : holder path = [] := by
  unfold holder
  rw [segments_of_not_dot h hdot]
  rfl

/-- Only in a shortcut are the segments before the last one not all used. -/
theorem holder_eq_dropLast (h : ¬ Shortcut path) : holder path = (segments path).dropLast := by
  unfold holder
  split_ifs with hdrop
  · refine absurd ?_ h
    by_cases hne : path = ""
    · subst hne
      cases hdrop
    · by_cases hdot : '.' ∈ path.toList
      · obtain ⟨before, leaf, hpath, hleaf⟩ := Text.exists_last hdot
        rw [segments_of_dot hpath hleaf, List.dropLast_concat, Text.splitOn_eq] at hdrop
        have hjoin : ['.'].intercalate (before.splitOn '.') = before := List.intercalate_splitOn '.'
        rw [hdrop] at hjoin
        have hbefore : before = [] := by simpa using hjoin.symm
        exact ⟨leaf, hleaf, by rw [hpath, hbefore]; rfl⟩
      · rw [segments_of_not_dot hne hdot] at hdrop
        cases hdrop
  · rfl

end Path

/-! ## Leading somewhere -/

namespace Value

variable {v w u record : Value} {segments before : List (List Char)} {leaf : List Char}
  {fields : Fields Value} {path : String}

theorem Leads.unique (hv : Leads segments record v) (hw : Leads segments record w) : v = w :=
  (foldl_child_of_leads hv).symm.trans (foldl_child_of_leads hw)

theorem leads_append_iff {after : List (List Char)} :
    Leads (before ++ after) v w ↔ ∃ u, Leads before v u ∧ Leads after u w := by
  constructor
  · intro h
    induction before generalizing v with
    | nil => exact ⟨v, .here v, h⟩
    | cons segment before ih =>
      cases h with
      | field hget hrest =>
        obtain ⟨u, hu, hw⟩ := ih hrest
        exact ⟨u, .field hget hu, hw⟩
      | element hposition hget hrest =>
        obtain ⟨u, hu, hw⟩ := ih hrest
        exact ⟨u, .element hposition hget hu, hw⟩
  · rintro ⟨u, hu, hw⟩
    induction hu with
    | here v => exact hw
    | field hget _ ih => exact .field hget (ih hw)
    | element hposition hget _ ih => exact .element hposition hget (ih hw)

/-- What is not null at the end of a path is what the path leads to. -/
theorem leads_iff_of_ne_null (hw : w ≠ .null) :
    Leads segments v w ↔ segments.foldl child v = w := by
  refine ⟨foldl_child_of_leads, fun h => ?_⟩
  by_cases hleads : ∃ u, Leads segments v u
  · obtain ⟨u, hu⟩ := hleads
    cases (foldl_child_of_leads hu).symm.trans h
    exact hu
  · exact absurd (h.symm.trans (foldl_child_of_leads_nowhere (not_exists.1 hleads))) hw

/-- The last segment of a path is a field of the object that it is looked up in. -/
def Names (record : Value) (path : String) : Prop :=
  ∃ leaf, (Path.segments path).getLast? = some leaf ∧
    ∃ fields v, Leads (Path.holder path) record (.object fields) ∧
      Fields.get? fields (String.ofList leaf) = some v

theorem contains_iff_get? {α : Type} {fields : List (String × α)} {name : String} :
    Fields.contains fields name = true ↔ ∃ v, Fields.get? fields name = some v := by
  unfold Fields.contains Fields.get?
  rw [← List.isSome_find?, Option.isSome_iff_exists]
  simp only [Option.map_eq_some_iff]
  constructor
  · rintro ⟨field, hfield⟩
    exact ⟨field.2, field, hfield, rfl⟩
  · rintro ⟨v, field, hfield, -⟩
    exact ⟨field, hfield⟩

/-- What is found at a path: the value that the path leads to, or null. -/
theorem atPath_cases (record : Value) (path : String) :
    (∃ v, Leads (Path.segments path) record v ∧ v ≠ .null ∧ record.atPath path = v) ∨
      (∀ v, Leads (Path.segments path) record v → v = .null) ∧ record.atPath path = .null := by
  by_cases hnull : record.atPath path = .null
  · exact .inr ⟨fun v hv => (atPath_of_leads hv).symm.trans hnull, hnull⟩
  · exact .inl ⟨_, (leads_iff_of_ne_null hnull).2 rfl, hnull, rfl⟩

/-- The empty path leads to the record itself. -/
theorem ne_empty_of_atPath (h : (object fields).atPath path = .null) : path ≠ "" := by
  rintro rfl
  cases h

theorem leads_object_iff :
    Leads segments record (.object fields) ↔ segments.foldl child record = .object fields :=
  leads_iff_of_ne_null (by simp)

/-- The check for a field at the end of a path looks for the last segment where it should be. -/
theorem hasField_iff (h : path ≠ "") : record.hasField path = true ↔ record.Names path := by
  unfold Names
  -- either way, only an object where the segments before the last one lead can hold the field
  by_cases hdot : '.' ∈ path.toList
  · obtain ⟨before, leaf, hpath, hleaf⟩ := Text.exists_last hdot
    rw [Path.segments_of_dot hpath hleaf, Path.holder_of_dot hpath hleaf, List.getLast?_concat]
    unfold hasField atPath
    rw [hpath, Text.splitLast?_append_cons hleaf]
    simp only [leads_object_iff, Option.some.injEq, exists_eq_left']
    cases (Path.segments (String.ofList before)).foldl child record <;> simp [contains_iff_get?]
  · rw [Path.segments_of_not_dot h hdot, Path.holder_of_not_dot h hdot]
    unfold hasField
    rw [Text.splitLast?_of_not_mem hdot]
    simp only [leads_object_iff, List.getLast?_singleton, Option.some.injEq, exists_eq_left',
      String.ofList_toList, List.foldl_nil]
    cases record <;> simp [contains_iff_get?]

/-! ## Where the two differ -/

theorem leads_singleton_iff :
    Leads [leaf] v w ↔
      (∃ fields, v = .object fields ∧ Fields.get? fields (String.ofList leaf) = some w) ∨
        ∃ items i, v = .array items ∧ Path.position? leaf = some i ∧ items[i]? = some w := by
  constructor
  · intro h
    cases h with
    | field hget hrest =>
      cases hrest
      exact .inl ⟨_, rfl, hget⟩
    | element hposition hget hrest =>
      cases hrest
      exact .inr ⟨_, _, rfl, hposition, hget⟩
  · rintro (⟨fields, rfl, hget⟩ | ⟨items, i, rfl, hposition, hget⟩)
    · exact .field hget (.here w)
    · exact .element hposition hget (.here w)

/-- The path leads to an element of an array, and the element is null. -/
def NullElement (record : Value) (path : String) : Prop :=
  ∃ items, Leads (Path.segments path).dropLast record (.array items) ∧
    Leads (Path.segments path) record .null

/-- Where a path leads to nothing but null, a null that is there is taken for one unless it is an
element of an array. -/
theorem names_iff_leads_null_iff (hne : path ≠ "") (h : ¬ Path.Shortcut path)
    (hnull : ∀ v, Leads (Path.segments path) record v → v = .null) :
    (record.Names path ↔ Leads (Path.segments path) record .null) ↔ ¬ record.NullElement path := by
  obtain ⟨before, leaf, hsegments⟩ : ∃ before leaf, Path.segments path = before ++ [leaf] := by
    refine List.eq_nil_or_concat' (Path.segments path) |>.resolve_left ?_
    rw [Path.segments_of_ne hne]
    exact Text.splitOn_ne_nil '.' path.toList
  unfold Names NullElement
  rw [Path.holder_eq_dropLast h]
  simp only [hsegments, List.dropLast_concat, List.getLast?_concat, Option.some.injEq,
    exists_eq_left', leads_append_iff, leads_singleton_iff] at hnull ⊢
  constructor
  · rintro hiff ⟨items, hitems, hleads⟩
    obtain ⟨fields, -, hfields, -⟩ := hiff.2 hleads
    cases hitems.unique hfields
  · intro harray
    constructor
    · rintro ⟨fields, v, hfields, hget⟩
      cases hnull v ⟨_, hfields, .inl ⟨fields, rfl, hget⟩⟩
      exact ⟨_, hfields, .inl ⟨fields, rfl, hget⟩⟩
    · rintro ⟨u, hu, ⟨fields, rfl, hget⟩ | ⟨items, i, rfl, hposition, hget⟩⟩
      · exact ⟨fields, .null, hu, hget⟩
      · exact absurd ⟨items, hu, _, hu, .inr ⟨items, i, rfl, hposition, hget⟩⟩ harray

/-- The name of a shortcut is looked up in the record itself. -/
theorem names_shortcut_iff (h : path.toList = '.' :: leaf) (hleaf : '.' ∉ leaf) :
    (object fields).Names path ↔ ∃ v, Fields.get? fields (String.ofList leaf) = some v := by
  have hpath : path.toList = [] ++ '.' :: leaf := h
  unfold Names
  rw [Path.segments_of_dot hpath hleaf, Path.holder_of_dot hpath hleaf, Path.segments_ofList,
    if_pos rfl, List.getLast?_concat]
  simp only [Option.some.injEq, exists_eq_left']
  constructor
  · rintro ⟨_, v, hhere, hget⟩
    cases hhere
    exact ⟨v, hget⟩
  · rintro ⟨v, hget⟩
    exact ⟨fields, v, .here _, hget⟩

end Value

end RecordFlow
