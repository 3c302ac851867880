import RecordFlow.Proofs.Dataset.Reachable
import RecordFlow.Proofs.Dataset.Rewriting
import RecordFlow.Proofs.Traversal

/-!
# Ungrouping with a function

Ungrouping visits the groups one level above the base and transforms the records as it flattens.
Mapping before or after flattening visits the base level of two different nestings, and all three
give the same value (`Dataset.ungroup_eq_map_flatten`).
-/

namespace RecordFlow

/-- Mapping writes the transformed records. -/
theorem Stage.writes_map (f : Value → Value) :
    (map f).Writes 0 0 fun vs => .array (vs.map f) := by
  intro items vs h
  rw [Node.toValue_one_eq_ok_iff] at h
  subst h
  rw [Node.toValue_one_eq_ok_iff, onList_map, List.map_map, List.map_map]
  rfl

namespace Value

/-- The records of groups one after another, each transformed. -/
def gathered (f : Value → Value) (groups : List Value) : Value :=
  .array ((groups.flatMap elements).map f)

variable {f : Value → Value} {groups : List Value}

/-- Groups written as arrays are gathered to their concatenation. -/
theorem gathered_map_array (f : Value → Value) (rows : List (List Value)) :
    gathered f (rows.map array) = .array (rows.flatten.map f) := by
  unfold gathered
  rw [List.flatMap_map, List.flatten_eq_flatMap]
  rfl

/-- Empty groups leave no trace. -/
theorem gathered_filter (f : Value → Value) (groups : List Value) :
    gathered f (groups.filter (!·.elements.isEmpty)) = gathered f groups := by
  unfold gathered
  congr 2
  induction groups with
  | nil => rfl
  | cons group groups ih =>
    rw [List.filter_cons, List.flatMap_cons, ← ih]
    split_ifs with h
    · rw [List.flatMap_cons]
    · have hempty : group.elements = [] := by simpa using h
      rw [hempty, List.nil_append]

/-- Transforming while the elements are put in a row is transforming the row. -/
theorem array_flatMap_map (f : Value → Value) (groups : List Value) :
    array (groups.flatMap fun group => group.elements.map f) = gathered f groups := by
  unfold gathered
  rw [List.map_flatMap]

/-- Transforming the records of every group first gives the same row. -/
theorem gathered_mapped (h : ∀ group ∈ groups, group.Nested 1) :
    gathered (fun v => v)
        (groups.map fun group => group.mapArrays (fun vs => .array (vs.map f)) 0) =
      gathered f groups := by
  unfold gathered
  rw [List.map_id', List.map_flatMap, List.flatMap_map]
  congr 1
  refine List.flatMap_congr fun group hgroup => ?_
  cases h group hgroup
  rfl

end Value

namespace Dataset

variable {d : Dataset} {v : Value} {depth : Nat}

theorem ungroup_result_of_succ (hlevel : d.level = depth + 2) (f : Value → Value) :
    (d.ungroup f).result = .ok () ∧ (d.ungroup f).dataset.level = depth + 1 := by
  rw [ungroup_of_succ hlevel]
  exact ⟨rfl, rfl⟩

namespace Nested

theorem get_map (h : d.Nested) (hlevel : d.level = depth + 1) (hv : d.get.result = .ok v)
    (f : Value → Value) :
    (d.map f).dataset.get.result = .ok (v.mapArrays (fun vs => .array (vs.map f)) depth) :=
  h.get_chain .map (.map f) (Stage.writes_map f) hlevel hv

theorem get_ungroup_gathered (h : d.Nested) (hlevel : d.level = depth + 2)
    (hv : d.get.result = .ok v) (f : Value → Value) :
    (d.ungroup f).dataset.get.result = .ok (v.mapArrays (Value.gathered f) depth) := by
  have hrows := funext (Value.array_flatMap_map f)
  rw [h.get_ungroup hlevel hv f, hrows]

/-- Mapping reaches the base groups one level below those that flattening then removes. -/
theorem get_map_flatten (h : d.Nested) (hlevel : d.level = depth + 2) (hv : d.get.result = .ok v)
    (f : Value → Value) :
    (d.map f).dataset.flatten.dataset.get.result = .ok (v.mapArrays (Value.gathered f) depth) := by
  have hmapped : (d.map f).dataset.Nested := h.chain .map (.map f)
  have hvalue := h.nested_value hv
  rw [hlevel] at hvalue
  unfold flatten
  rw [hmapped.get_ungroup_gathered hlevel (h.get_map hlevel hv f), Value.mapArrays_succ,
    Value.mapArrays_mapArrays]
  exact congrArg Except.ok
    (hvalue.mapArrays_congr fun groups hgroups => Value.gathered_mapped hgroups)

/-- Flattening leaves the rows as the base groups that mapping then reaches. -/
theorem get_flatten_map (h : d.Nested) (hlevel : d.level = depth + 2) (hv : d.get.result = .ok v)
    (f : Value → Value) :
    (d.flatten.dataset.map f).dataset.get.result =
      .ok (v.mapArrays (Value.gathered f) depth) := by
  have hflattened : d.flatten.dataset.Nested := h.ungroup _
  have hflat := (ungroup_result_of_succ hlevel fun v => v).2
  rw [hflattened.get_map hflat (h.get_ungroup_gathered hlevel hv _), Value.mapArrays_mapArrays]
  refine congrArg Except.ok (congrArg (v.mapArrays · depth) (funext fun groups => ?_))
  show Value.array (((groups.flatMap Value.elements).map fun v => v).map f) = _
  rw [List.map_id']
  rfl

end Nested

/-- **Ungrouping with a function is mapping and flattening, in either order.** Above level one all of
these calls succeed, and the three ways end at the level below with one value: every array of groups
becomes the concatenation of the groups, with the function applied once to each record, and what is
around those arrays stays as it is. Empty groups vanish: dropping them first gives the same value. -/
theorem ungroup_eq_map_flatten (h : Reachable d) (hlevel : d.level = depth + 2)
    (f : Value → Value) :
    let ungrouped := d.ungroup f
    let mapped := d.map f
    let mapFirst := mapped.dataset.flatten
    let flattened := d.flatten
    let mapLast := flattened.dataset.map f
    (ungrouped.result = .ok () ∧ ungrouped.dataset.level = depth + 1) ∧
      (mapped.result = .ok () ∧ mapFirst.result = .ok () ∧ mapFirst.dataset.level = depth + 1) ∧
      (flattened.result = .ok () ∧ mapLast.result = .ok () ∧ mapLast.dataset.level = depth + 1) ∧
      ∃ v, d.get.result = .ok v ∧ v.Nested (depth + 2) ∧
        ungrouped.dataset.get.result = .ok (v.mapArrays (Value.gathered f) depth) ∧
        mapFirst.dataset.get.result = .ok (v.mapArrays (Value.gathered f) depth) ∧
        mapLast.dataset.get.result = .ok (v.mapArrays (Value.gathered f) depth) ∧
        (∀ rows : List (List Value),
          Value.gathered f (rows.map .array) = .array (rows.flatten.map f)) ∧
        v.mapArrays (Value.gathered f) depth =
          v.mapArrays (fun groups => Value.gathered f (groups.filter (!·.elements.isEmpty))) depth := by
  intro ungrouped mapped mapFirst flattened mapLast
  obtain ⟨v, hv, hnested⟩ := h.nested.exists_value
  rw [hlevel] at hnested
  obtain ⟨hok, hlower⟩ := ungroup_result_of_succ hlevel f
  obtain ⟨hokFirst, hlowerFirst⟩ : mapFirst.result = .ok () ∧ mapFirst.dataset.level = depth + 1 :=
    ungroup_result_of_succ (d := mapped.dataset) hlevel fun v => v
  obtain ⟨hokFlat, hlowerFlat⟩ := ungroup_result_of_succ hlevel fun v => v
  refine ⟨⟨hok, hlower⟩, ⟨rfl, hokFirst, hlowerFirst⟩, ⟨hokFlat, rfl, hlowerFlat⟩, v, hv, hnested,
    h.nested.get_ungroup_gathered hlevel hv f, h.nested.get_map_flatten hlevel hv f,
    h.nested.get_flatten_map hlevel hv f, Value.gathered_map_array f, ?_⟩
  rw [funext (Value.gathered_filter f)]

/-- Uneven groups, one of them empty, inside two outer groups, one of them empty as well. -/
theorem ungroup_eq_map_flatten_of_uneven_groups :
    let t := Value.bool true
    let v := Value.array [.array [.array [t, .null], .array [], .array [t]], .array []]
    let wrap := fun r : Value => Value.array [r]
    let w := Value.array [.array [wrap t, wrap .null, wrap t], .array []]
    ∃ d, ofNested v 3 = .ok d ∧ Reachable d ∧ d.level = 1 + 2 ∧
      (d.ungroup wrap).dataset.get.result = .ok w ∧
      (d.map wrap).dataset.flatten.dataset.get.result = .ok w ∧
      (d.flatten.dataset.map wrap).dataset.get.result = .ok w := by
  intro t v wrap w
  obtain ⟨d, hd⟩ : ∃ d, ofNested v 3 = .ok d := ⟨_, rfl⟩
  obtain ⟨hreachable, hlevel, hv⟩ := reachable_ofNested hd
  obtain ⟨-, -, -, u, hu, -, hungrouped, hfirst, hlast, -, -⟩ :=
    ungroup_eq_map_flatten hreachable hlevel wrap
  cases hv.symm.trans hu
  exact ⟨d, hd, hreachable, hlevel, hungrouped, hfirst, hlast⟩

end Dataset

end RecordFlow
