import RecordFlow.Proofs.Dataset.Reachable
import RecordFlow.Proofs.Dataset.Rewriting
import RecordFlow.Proofs.Partition

/-!
# Grouping and flattening

Grouping splits every base group into its buckets, one for each key, and flattening puts the buckets
one after another. Both together are a stable partition of every base group, and leave the nesting
around the base groups as it is (`Dataset.group_flatten`).
-/

namespace RecordFlow

/-- Grouping writes the buckets of the records as arrays. -/
theorem Stage.writes_group (keyOf : Value → Value) :
    (group keyOf).Writes 0 1 fun vs =>
      .array ((bucketsOf (fun v => .ofValue (keyOf v)) vs).map .array) := by
  intro items vs h
  rw [Node.toValue_one_eq_ok_iff] at h
  subst h
  have hkeys : keysOf (nodeKey keyOf) (vs.map .record) = keysOf (fun v => .ofValue (keyOf v)) vs := by
    unfold keysOf
    rw [List.map_map]
    rfl
  refine Node.toValueWith_succ_eq_ok_iff.2 ⟨_, _, rfl, rfl, ?_⟩
  unfold bucketsOf
  rw [Chained.onList_group, hkeys, List.map_map, List.forall₂_map_left_iff,
    List.forall₂_map_right_iff, List.forall₂_same]
  intro k _
  rw [List.filter_map]
  exact Node.toValue_rows _

namespace Dataset

variable {d : Dataset} {v : Value} {depth : Nat}

theorem Nested.get_group (h : d.Nested) (hlevel : d.level = depth + 1) (hv : d.get.result = .ok v)
    (keyOf : Value → Value) :
    (d.group keyOf).dataset.get.result =
      .ok (v.mapArrays (fun vs =>
        .array ((bucketsOf (fun v => .ofValue (keyOf v)) vs).map .array)) depth) := by
  refine h.get_rewritten (.group keyOf) (Stage.writes_group keyOf) hlevel ?_ ?_ hv
  · exact congrArg (· + 1) hlevel
  · rw [← hlevel]
    rfl

/-- The single item of a dataset of level zero is grouped to a single record. -/
theorem Nested.holds_group_of_zero (h : d.Nested) (hlevel : d.level = 0)
    (hv : d.get.result = .ok v) (keyOf : Value → Value) : (d.group keyOf).dataset.Holds [v] := by
  refine ⟨congrArg (· + 1) hlevel, ?_⟩
  show (d.data.mapBase (.group keyOf) d.level).toNode = _
  rw [Data.toNode_mapBase (.group keyOf), hlevel, h.toNode_of_zero hlevel hv]
  show (Stage.group keyOf).onSingle (.record v) = _
  unfold Stage.onSingle
  rw [Stage.Chained.onList_group, keysOf_cons]
  simp

/-- Buckets written as arrays are flattened to their records in a row. -/
theorem flatMap_elements_buckets (buckets : List (List Value)) :
    ((buckets.map Value.array).flatMap fun v => v.elements.map fun r => r) = buckets.flatten := by
  rw [List.flatMap_map, List.flatten_eq_flatMap]
  exact List.flatMap_congr fun bucket _ => List.map_id' bucket

/-- **Grouping and then flattening is a stable partition.** The level goes up by one and down again.
In between every base group is split into its buckets, and in the end it holds their records one
after another; nothing else changes. At level zero the single item stays what it is. -/
theorem group_flatten (h : Reachable d) (keyOf : Value → Value) :
    let key := fun record => Key.ofValue (keyOf record)
    let grouped := d.group keyOf
    let flattened := grouped.dataset.flatten
    grouped.result = .ok () ∧ grouped.dataset.level = d.level + 1 ∧
      flattened.result = .ok () ∧ flattened.dataset.level = d.level ∧
      (∀ records, StablePartition key records (bucketsOf key records)) ∧
      ∃ v, d.get.result = .ok v ∧
        (d.level = 0 → grouped.dataset.get.result = .ok (.array [v]) ∧
          flattened.dataset.get.result = .ok v) ∧
        ∀ depth, d.level = depth + 1 →
          grouped.dataset.get.result =
              .ok (v.mapArrays (fun rs => .array ((bucketsOf key rs).map .array)) depth) ∧
            flattened.dataset.get.result =
              .ok (v.mapArrays (fun rs => .array (bucketsOf key rs).flatten) depth) := by
  intro key grouped flattened
  obtain ⟨v, -, hget⟩ := h.nested.get_eq
  have hv : d.get.result = .ok v := by rw [hget]
  have hgrouped : grouped.dataset.Nested := h.nested.group keyOf
  refine ⟨rfl, rfl, ?_⟩
  match hlevel : d.level with
  | 0 =>
    have hholds := h.nested.holds_group_of_zero hlevel hv keyOf
    obtain ⟨hok, hzero, hflattened⟩ := hholds.flatten
    exact ⟨hok, hzero, stablePartition_bucketsOf key, v, hv, fun _ => ⟨hholds.get, hflattened⟩,
      fun depth hdepth => absurd hdepth.symm (Nat.succ_ne_zero depth)⟩
  | depth + 1 =>
    have hgroupedLevel : grouped.dataset.level = depth + 2 := congrArg (· + 1) hlevel
    have hbuckets := h.nested.get_group hlevel hv keyOf
    have hflattened := hgrouped.get_ungroup hgroupedLevel hbuckets fun v => v
    rw [Value.mapArrays_mapArrays] at hflattened
    simp only [Value.mapArrays, flatMap_elements_buckets] at hflattened
    have hungroup : flattened = _ := ungroup_of_succ hgroupedLevel
    refine ⟨by rw [hungroup]; rfl, by rw [hungroup]; rfl, stablePartition_bucketsOf key, v, hv,
      fun hzero => absurd hzero (Nat.succ_ne_zero depth), fun depth' hdepth => ?_⟩
    cases hdepth
    exact ⟨hbuckets, hflattened⟩

/-- Three records and an empty group, two levels down: the first group is split in two buckets and
put together again with the records of one key side by side. -/
theorem group_flatten_of_inner_groups :
    let t := Value.bool true
    let v := Value.array [.array [t, .null, t], .array []]
    ∃ d, ofNested v 2 = .ok d ∧ Reachable d ∧
      (d.group id).dataset.get.result =
        .ok (.array [.array [.array [t, t], .array [.null]], .array []]) ∧
      (d.group id).dataset.flatten.dataset.get.result =
        .ok (.array [.array [t, t, .null], .array []]) := by
  intro t v
  obtain ⟨d, hd⟩ : ∃ d, ofNested v 2 = .ok d := ⟨_, rfl⟩
  have hlevel : d.level = 2 := by
    cases hd
    rfl
  have hreachable : Reachable d := .source (.nested v 2) none (by cases hd; rfl)
  obtain ⟨-, -, -, -, -, w, hw, -, hdeep⟩ := group_flatten hreachable id
  obtain ⟨hgrouped, hflattened⟩ := hdeep 1 hlevel
  have hv : d.get.result = .ok v := by
    cases hd
    rfl
  cases hv.symm.trans hw
  exact ⟨d, hd, hreachable, hgrouped, hflattened⟩

end Dataset

end RecordFlow
