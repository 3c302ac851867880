import RecordFlow.Proofs.Dataset.Join

/-!
# Stages seen through values

The value of nested data shows their groups as arrays. A stage that makes one array out of another
(`Stage.Writes`) rewrites all arrays that stand as deep as the groups it is applied to, and nothing
around them (`Node.toValue_mapBase_of_writes`).
-/

namespace RecordFlow

/-! ## Arrays at a depth -/

namespace Value

/-- The elements of an array; other values have none. -/
def elements : Value → List Value
  | .array vs => vs
  | _ => []

/-- Replace every array at a depth. The value itself is at depth zero, its elements are at depth one,
and so on; what is not nested as deep stays as it is. -/
def mapArrays (f : List Value → Value) : Nat → Value → Value
  | 0, .array vs => f vs
  | depth + 1, .array vs => .array (vs.map (mapArrays f depth))
  | _, v => v

variable {f g : List Value → Value}

/-- What replaced arrays is replaced in turn. -/
theorem mapArrays_mapArrays (f g : List Value → Value) (depth : Nat) (v : Value) :
    (v.mapArrays f depth).mapArrays g depth =
      v.mapArrays (fun vs => (f vs).mapArrays g 0) depth := by
  induction depth generalizing v with
  | zero => cases v <;> rfl
  | succ depth ih =>
    cases v with
    | array vs =>
      simp only [mapArrays, List.map_map, array.injEq]
      exact List.map_congr_left fun v _ => ih v
    | _ => rfl

/-- Replacing arrays one level deeper is replacing them in every array. -/
theorem mapArrays_succ (f : List Value → Value) (depth : Nat) (v : Value) :
    v.mapArrays f (depth + 1) =
      v.mapArrays (fun vs => .array (vs.map fun v => v.mapArrays f 0)) depth := by
  induction depth generalizing v with
  | zero => cases v <;> rfl
  | succ depth ih =>
    cases v with
    | array vs => exact congrArg array (List.map_congr_left fun v _ => ih v)
    | _ => rfl

/-- Every value that is nested less deep than a level is an array. -/
inductive Nested : Nat → Value → Prop where
  | zero (v : Value) : Nested 0 v
  | succ {level : Nat} {vs : List Value} (h : ∀ v ∈ vs, Nested level v) :
    Nested (level + 1) (.array vs)

/-- What replaces arrays matters only for those that there are. -/
theorem Nested.mapArrays_congr {level depth : Nat} {v : Value} (h : v.Nested (depth + 1 + level))
    (hfg : ∀ vs : List Value, (∀ v ∈ vs, v.Nested level) → f vs = g vs) :
    v.mapArrays f depth = v.mapArrays g depth := by
  induction depth generalizing v with
  | zero =>
    rw [Nat.zero_add, Nat.add_comm] at h
    cases h with
    | succ hvs => exact hfg _ hvs
  | succ depth ih =>
    rw [Nat.add_right_comm] at h
    cases h with
    | succ hvs => exact congrArg array (List.map_congr_left fun v hv => ih (hvs v hv))

end Value

/-! ## Stages -/

/-- A stage makes the array of one list of items out of that of another. The items that it takes and
makes are nested to some levels. -/
def Stage.Writes (s : Stage) (j k : Nat) (f : List Value → Value) : Prop :=
  ∀ items vs, Node.toValue (j + 1) (.group items) = .ok (.array vs) →
    Node.toValue (k + 1) (.group (s.onList items)) = .ok (f vs)

namespace Node

variable {s : Stage} {j k : Nat} {f : List Value → Value} {node : Node} {items : List Node}
  {v : Value} {vs : List Value}

theorem toValue_one_eq_ok_iff :
    toValue 1 (.group items) = .ok (.array vs) ↔ items = vs.map record := by
  constructor
  · intro h
    obtain ⟨_, _, ⟨⟩, ⟨⟩, hvs⟩ := toValueWith_succ_eq_ok_iff.1 h
    rw [← List.forall₂_eq_eq_eq, List.forall₂_map_right_iff]
    refine hvs.imp fun item v hv => ?_
    obtain ⟨r, rfl, rfl⟩ := toValueWith_zero_eq_ok_iff.1 hv
    rfl
  · rintro rfl
    exact toValue_rows vs

theorem nested_of_toValue {level : Nat} (h : toValue level node = .ok v) : v.Nested level := by
  induction level generalizing node v with
  | zero => exact .zero v
  | succ level ih =>
    obtain ⟨items, vs, rfl, rfl, hvs⟩ := toValueWith_succ_eq_ok_iff.1 h
    refine .succ ?_
    clear h
    induction hvs with
    | nil => exact List.forall_mem_nil _
    | cons hv _ ihItems => exact List.forall_mem_cons.2 ⟨ih hv, ihItems⟩

/-- **A stage under some levels of groups rewrites the arrays at that depth.** -/
theorem toValue_mapBase_of_writes (hs : s.Writes j k f) {depth : Nat}
    (h : toValue (depth + 1 + j) node = .ok v) :
    toValue (depth + 1 + k) (node.mapBase s (depth + 1)) = .ok (v.mapArrays f depth) := by
  induction depth generalizing node v with
  | zero =>
    rw [Nat.zero_add, Nat.add_comm] at h ⊢
    obtain ⟨items, vs, rfl, rfl, -⟩ := toValueWith_succ_eq_ok_iff.1 h
    exact hs items vs h
  | succ depth ih =>
    rw [Nat.add_right_comm] at h ⊢
    obtain ⟨items, vs, rfl, rfl, hvs⟩ := toValueWith_succ_eq_ok_iff.1 h
    refine toValueWith_succ_eq_ok_iff.2 ⟨_, _, rfl, rfl, ?_⟩
    rw [List.forall₂_map_left_iff, List.forall₂_map_right_iff]
    exact hvs.imp fun _ _ hitem => ih hitem

end Node

/-- Flattening writes the elements of the inner arrays in a row, with a function applied to each. -/
theorem Stage.writes_flatten (f : Value → Value) :
    (flatten f).Writes 1 0 fun vs => .array (vs.flatMap fun v => v.elements.map f) := by
  intro items vs h
  obtain ⟨_, _, ⟨⟩, ⟨⟩, hvs⟩ := Node.toValueWith_succ_eq_ok_iff.1 h
  rw [Node.toValue_one_eq_ok_iff]
  simp only [onList, flatten, Feed.items_flatMap, Feed.items_ofList]
  clear h
  induction hvs with
  | nil => rfl
  | @cons item v items vs hv _ ih =>
    obtain ⟨inner, rows, rfl, rfl, -⟩ := Node.toValueWith_succ_eq_ok_iff.1 hv
    have hinner : inner = rows.map .record := Node.toValue_one_eq_ok_iff.1 hv
    rw [List.flatMap_cons, List.flatMap_cons, List.map_append, ← ih, hinner]
    simp only [Node.items, Value.elements, List.map_map]
    rfl

/-! ## Datasets -/

namespace Dataset

variable {d d' : Dataset} {s : Stage} {j k depth : Nat} {f : List Value → Value} {v w : Value}

/-- A single record is flattened to an item of level zero. -/
theorem Holds.flatten (h : d.Holds [v]) :
    d.flatten.result = .ok () ∧ d.flatten.dataset.level = 0 ∧
      d.flatten.dataset.get.result = .ok v := by
  have hitems : d.data.toNode.items = [.record v] := by
    rw [h.2]
    rfl
  unfold Dataset.flatten
  rw [ungroup_of_one h.1, collapse_of_single hitems]
  exact ⟨rfl, rfl, rfl⟩

namespace Nested

theorem nested_value (h : d.Nested) (hv : d.get.result = .ok v) : v.Nested d.level := by
  rw [h.result_get] at hv
  exact Node.nested_of_toValue hv

/-- There is a value to get, nested to the level. -/
theorem exists_value (h : d.Nested) : ∃ v, d.get.result = .ok v ∧ v.Nested d.level := by
  obtain ⟨v, -, hget⟩ := h.get_eq
  have hv : d.get.result = .ok v := by rw [hget]
  exact ⟨v, hv, h.nested_value hv⟩

/-- The single item of a dataset of level zero. -/
theorem toNode_of_zero (h : d.Nested) (hlevel : d.level = 0) (hv : d.get.result = .ok v) :
    d.data.toNode = .record v := by
  rw [h.result_get, hlevel] at hv
  obtain ⟨r, hnode, rfl⟩ := Node.toValueWith_zero_eq_ok_iff.1 hv
  exact hnode

/-- At level zero, a stage chained onto a dataset replaces the single item. -/
theorem get_chain_of_zero (h : d.Nested) (operation : Operation) (hs : s.Chained 0 0)
    (hf : s.onSingle (.record v) = .record w) (hlevel : d.level = 0)
    (hv : d.get.result = .ok v) : (d.chain operation s).dataset.get.result = .ok w := by
  have hnode : (d.chain operation s).dataset.data.toNode = .record w := by
    show (d.data.mapBase s d.level).toNode = _
    rw [Data.toNode_mapBase hs, hlevel, h.toNode_of_zero hlevel hv]
    exact hf
  rw [(h.chain operation hs).result_get, hnode]
  show Node.toValue d.level (.record w) = .ok w
  rw [hlevel]
  rfl

/-- A stage chained onto a dataset rewrites the arrays of its value. -/
theorem get_rewritten (h : d.Nested) (hs : s.Chained j k) (hf : s.Writes j k f)
    (hlevel : d.level = depth + 1 + j) (hlevel' : d'.level = depth + 1 + k)
    (hdata : d'.data = d.data.mapBase s (depth + 1)) (hv : d.get.result = .ok v) :
    d'.get.result = .ok (v.mapArrays f depth) := by
  rw [h.result_get, hlevel] at hv
  have hvalue := Node.toValue_mapBase_of_writes hf hv
  rw [← Data.toNode_mapBase hs, ← hdata, ← hlevel'] at hvalue
  have hnested : d'.Nested := Node.nested_iff_toValueWith.2 ⟨_, hvalue⟩
  rw [hnested.result_get, hvalue]

theorem get_chain (h : d.Nested) (operation : Operation) (hs : s.Chained 0 0) (hf : s.Writes 0 0 f)
    (hlevel : d.level = depth + 1) (hv : d.get.result = .ok v) :
    (d.chain operation s).dataset.get.result = .ok (v.mapArrays f depth) := by
  refine h.get_rewritten hs hf hlevel hlevel ?_ hv
  rw [← hlevel]
  rfl

theorem get_ungroup (h : d.Nested) (hlevel : d.level = depth + 2) (hv : d.get.result = .ok v)
    (f : Value → Value) :
    (d.ungroup f).dataset.get.result =
      .ok (v.mapArrays (fun vs => .array (vs.flatMap fun v => v.elements.map f)) depth) := by
  rw [ungroup_of_succ hlevel]
  exact h.get_rewritten (.flatten f) (Stage.writes_flatten f) hlevel rfl rfl hv

end Nested

end Dataset

end RecordFlow
