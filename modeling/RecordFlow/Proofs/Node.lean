import RecordFlow.Node
import RecordFlow.Proofs.Attempts

/-!
# Nested data and nested arrays

Nested data are read from arrays exactly when they can be written as those arrays
(`Node.ofValue?_eq_ok_iff`), and they can be written exactly when they are nested to the level that
is asked for (`Node.nested_iff_toValueWith`).
-/

namespace RecordFlow

namespace Node

/-! ## Nested data -/

/-- Data nested to exactly a level: a record at level zero, and above it a group of data nested to
the level below. -/
inductive Nested : Nat → Node → Prop where
  | record (v : Value) : Nested 0 (.record v)
  | group {level : Nat} {items : List Node} (h : ∀ node ∈ items, Nested level node) :
    Nested (level + 1) (.group items)

variable {f : Value → Value} {level : Nat} {node : Node} {v : Value}

theorem nested_zero_iff : Nested 0 node ↔ ∃ v, node = .record v := by
  constructor
  · rintro ⟨v⟩
    exact ⟨v, rfl⟩
  · rintro ⟨v, rfl⟩
    exact .record v

theorem nested_succ_iff :
    Nested (level + 1) node ↔ ∃ items, node = .group items ∧ ∀ item ∈ items, Nested level item := by
  constructor
  · rintro ⟨⟩
    exact ⟨_, rfl, by assumption⟩
  · rintro ⟨items, rfl, h⟩
    exact .group h

theorem nested_map_record (vs : List Value) : ∀ node ∈ vs.map record, Nested 0 node := by
  intro node hnode
  obtain ⟨v, -, rfl⟩ := List.mem_map.1 hnode
  exact .record v

/-- Data nested to level zero are records. -/
theorem exists_map_record {items : List Node} (h : ∀ item ∈ items, Nested 0 item) :
    ∃ vs : List Value, items = vs.map record := by
  induction items with
  | nil => exact ⟨[], rfl⟩
  | cons item items ih =>
    obtain ⟨v, rfl⟩ := nested_zero_iff.1 (h item List.mem_cons_self)
    obtain ⟨vs, rfl⟩ := ih fun item hitem => h item (List.mem_cons_of_mem _ hitem)
    exact ⟨v :: vs, rfl⟩

@[simp] theorem filterMap_record? (vs : List Value) : (vs.map record).filterMap record? = vs := by
  rw [List.filterMap_map]
  exact List.filterMap_some

/-! ## Writing nested arrays -/

theorem itemToValue_eq_ok_iff :
    itemToValue f (toValueWith f level) level node = .ok v ↔ toValueWith f level node = .ok v := by
  cases level <;> cases node <;> simp [itemToValue, toValueWith]

theorem toValueWith_zero_eq_ok_iff :
    toValueWith f 0 node = .ok v ↔ ∃ r, node = .record r ∧ v = f r := by
  cases node <;> simp [toValueWith, eq_comm]

theorem toValueWith_succ_eq_ok_iff :
    toValueWith f (level + 1) node = .ok v ↔
      ∃ items vs, node = .group items ∧ v = .array vs ∧
        List.Forall₂ (fun item v => toValueWith f level item = .ok v) items vs := by
  cases node with
  | record r => simp [toValueWith]
  | group items =>
    rw [toValueWith, bind_eq_ok_iff]
    simp only [mapM_eq_ok_iff, itemToValue_eq_ok_iff, group.injEq, pure, Except.pure,
      Except.ok.injEq]
    constructor
    · rintro ⟨vs, hvs, rfl⟩
      exact ⟨items, vs, rfl, rfl, hvs⟩
    · rintro ⟨_, vs, rfl, rfl, hvs⟩
      exact ⟨vs, hvs, rfl⟩

theorem toValue_group (level : Nat) (items : List Node) :
    toValue (level + 1) (.group items) =
      (items.mapM (itemToValue (fun v => v) (toValue level) level)).map .array := by
  show toValueWith (fun v => v) (level + 1) (.group items) =
    (items.mapM (itemToValue (fun v => v) (toValueWith (fun v => v) level) level)).map .array
  rw [toValueWith]
  cases items.mapM (itemToValue (fun v => v) (toValueWith (fun v => v) level) level) <;> rfl

/-- Data can be written to a level exactly when they are nested to it. -/
theorem nested_iff_toValueWith : Nested level node ↔ ∃ v, toValueWith f level node = .ok v := by
  induction level generalizing node with
  | zero => simp [nested_zero_iff, toValueWith_zero_eq_ok_iff]
  | succ level ih =>
    simp only [nested_succ_iff, toValueWith_succ_eq_ok_iff, ih]
    constructor
    · rintro ⟨items, rfl, h⟩
      obtain ⟨vs, hvs⟩ :
          ∃ vs, List.Forall₂ (fun item v => toValueWith f level item = .ok v) items vs := by
        induction items with
        | nil => exact ⟨[], .nil⟩
        | cons item items ihItems =>
          obtain ⟨v, hv⟩ := h item List.mem_cons_self
          obtain ⟨vs, hvs⟩ := ihItems fun item hitem => h item (List.mem_cons_of_mem _ hitem)
          exact ⟨v :: vs, .cons hv hvs⟩
      exact ⟨_, items, vs, rfl, rfl, hvs⟩
    · rintro ⟨v, items, vs, rfl, -, hvs⟩
      refine ⟨items, rfl, ?_⟩
      induction hvs with
      | nil => simp
      | cons hv _ ihItems =>
        intro item hitem
        rcases List.mem_cons.1 hitem with rfl | hitem
        · exact ⟨_, hv⟩
        · exact ihItems item hitem

/-! ## Reading nested arrays -/

theorem ofValue?_succ_eq_ok_iff :
    ofValue? (level + 1) v = .ok node ↔
      ∃ items vs, node = .group items ∧ v = .array vs ∧
        List.Forall₂ (fun item v => ofValue? level v = .ok item) items vs := by
  cases v with
  | array vs =>
    rw [ofValue?, bind_eq_ok_iff]
    simp only [mapM_eq_ok_iff, pure, Except.pure, Except.ok.injEq, Value.array.injEq]
    constructor
    · rintro ⟨items, hitems, rfl⟩
      exact ⟨items, vs, rfl, rfl, hitems.flip⟩
    · rintro ⟨items, _, rfl, rfl, hitems⟩
      exact ⟨items, hitems.flip, rfl⟩
  | _ => simp [ofValue?]

/-- Data are read from a value exactly when they are written as it. -/
theorem ofValue?_eq_ok_iff : ofValue? level v = .ok node ↔ toValue level node = .ok v := by
  unfold toValue
  induction level generalizing v node with
  | zero => rw [toValueWith_zero_eq_ok_iff]; simp [ofValue?, eq_comm]
  | succ level ih => simp only [ofValue?_succ_eq_ok_iff, toValueWith_succ_eq_ok_iff, ih]

theorem nested_of_ofValue? (h : ofValue? level v = .ok node) : Nested level node :=
  nested_iff_toValueWith.2 ⟨v, ofValue?_eq_ok_iff.1 h⟩

end Node

end RecordFlow
