import RecordFlow.Proofs.Dataset.Reachable
import RecordFlow.Proofs.Dataset.Rewriting

/-!
# Folded base groups

Reducing a dataset puts the fold of every base group in place of the group, one level lower
(`Dataset.reduce_folds`). It wraps each fold in a group of its own and then ungroups, which is done
in one way at level one and in another above, and left out at level zero.
-/

namespace RecordFlow

/-- Folding writes an array of the fold. -/
theorem Stage.writes_reduce (r : Reducer) :
    (reduce r).Writes 0 0 fun vs => .array [r.apply vs] := by
  intro items vs h
  rw [Node.toValue_one_eq_ok_iff] at h
  subst h
  rw [Node.toValue_one_eq_ok_iff]
  simp only [onList, reduce, Feed.items_gather, Feed.items_ofList, Node.filterMap_record?]
  rfl

/-- Arrays that each hold the fold of another, put in a row, are the folds of the others. -/
theorem Value.flatMap_elements_folds (f : List Value → Value) {vs : List Value}
    (h : ∀ v ∈ vs, v.Nested 1) :
    ((vs.map fun v => v.mapArrays (fun rs => .array [f rs]) 0).flatMap fun v =>
        v.elements.map fun v => v) =
      vs.map fun v => v.mapArrays f 0 := by
  induction vs with
  | nil => rfl
  | cons v vs ih =>
    obtain ⟨hv, hvs⟩ := List.forall_mem_cons.1 h
    cases hv with
    | succ _ =>
      rw [List.map_cons, List.flatMap_cons, ih hvs]
      rfl

namespace Dataset

variable {d : Dataset} {v : Value} {depth : Nat}

/-- Above level zero, reducing is folding every base group and then flattening. -/
theorem reduce_dataset (hlevel : d.level = depth + 1) (r : Reducer) :
    (d.reduce r).dataset = (d.reduceKeep r).dataset.flatten.dataset := by
  unfold reduce
  rw [reduceWith_eq, if_pos (by simp [hlevel])]

namespace Nested

theorem get_reduceKeep (h : d.Nested) (hlevel : d.level = depth + 1) (hv : d.get.result = .ok v)
    (r : Reducer) :
    (d.reduceKeep r).dataset.get.result =
      .ok (v.mapArrays (fun rs => .array [r.apply rs]) depth) :=
  h.get_chain .reduce (.reduce r) (Stage.writes_reduce r) hlevel hv

/-- Whether what is folded is collapsed or flattened, the folds take the places of the groups. -/
theorem get_reduce (h : d.Nested) (hlevel : d.level = depth + 1) (hv : d.get.result = .ok v)
    (r : Reducer) :
    (d.reduce r).dataset.level = depth ∧
      (d.reduce r).dataset.get.result = .ok (v.mapArrays r.apply depth) := by
  have hkept := h.get_reduceKeep hlevel hv r
  have hnested : (d.reduceKeep r).dataset.Nested := h.chain .reduce (.reduce r)
  have hkeptLevel : (d.reduceKeep r).dataset.level = depth + 1 := hlevel
  have hvalue := h.nested_value hv
  rw [reduce_dataset hlevel]
  rw [hlevel] at hvalue
  cases depth with
  | zero =>
    cases hvalue with
    | @succ _ rs _ =>
      have hholds : (d.reduceKeep r).dataset.Holds [r.apply rs] := by
        obtain ⟨rows, hrows⟩ := hnested.holds hkeptLevel
        cases hrows.get.symm.trans hkept
        exact hrows
      exact hholds.flatten.2
  | succ depth =>
    unfold flatten
    refine ⟨by rw [ungroup_of_succ hkeptLevel]; rfl, ?_⟩
    rw [hnested.get_ungroup hkeptLevel hkept fun v => v, Value.mapArrays_succ, Value.mapArrays_succ,
      Value.mapArrays_mapArrays]
    refine congrArg Except.ok (hvalue.mapArrays_congr fun vs hvs => ?_)
    exact congrArg Value.array (Value.flatMap_elements_folds r.apply hvs)

/-- At level zero, the single item is folded as a group of one record. -/
theorem get_reduce_of_zero (h : d.Nested) (hlevel : d.level = 0) (hv : d.get.result = .ok v)
    (r : Reducer) :
    (d.reduce r).dataset.level = 0 ∧ (d.reduce r).dataset.get.result = .ok (r.apply [v]) := by
  have hkept : d.reduce r = d.reduceKeep r := by
    unfold reduce
    rw [reduceWith_eq, if_neg (by simp [hlevel])]
  rw [hkept]
  exact ⟨hlevel, h.get_chain_of_zero .reduce (.reduce r) rfl hlevel hv⟩

end Nested

/-- **Reducing folds every base group in place of the group.** It succeeds and lowers the level by
one, and every innermost array of the value, also an empty one, is replaced by its fold. If the
level is kept, the fold stands in an array of its own. At level zero the single item is folded as a
group of one record. -/
theorem reduce_folds (h : Reachable d) (r : Reducer) :
    let reduced := d.reduce r
    let kept := d.reduceKeep r
    reduced.result = .ok () ∧ reduced.dataset.level = d.level - 1 ∧
      kept.result = .ok () ∧ kept.dataset.level = d.level ∧
      ∃ v, d.get.result = .ok v ∧ v.Nested d.level ∧
        (d.level = 0 → reduced.dataset.get.result = .ok (r.apply [v])) ∧
        ∀ depth, d.level = depth + 1 →
          reduced.dataset.get.result = .ok (v.mapArrays r.apply depth) ∧
            kept.dataset.get.result = .ok (v.mapArrays (fun rs => .array [r.apply rs]) depth) := by
  intro reduced kept
  obtain ⟨v, hv, hnested⟩ := h.nested.exists_value
  have hok : reduced.result = .ok () := h.nested.reduceWith_result r true
  match hlevel : d.level with
  | 0 =>
    obtain ⟨hzero, hreduced⟩ := h.nested.get_reduce_of_zero hlevel hv r
    exact ⟨hok, hzero, rfl, rfl, v, hv, .zero v, fun _ => hreduced,
      fun depth hdepth => absurd hdepth.symm (Nat.succ_ne_zero depth)⟩
  | depth + 1 =>
    obtain ⟨hlower, hreduced⟩ := h.nested.get_reduce hlevel hv r
    rw [hlevel] at hnested
    refine ⟨hok, hlower, rfl, rfl, v, hv, hnested,
      fun hzero => absurd hzero (Nat.succ_ne_zero depth), fun depth' hdepth => ?_⟩
    cases hdepth
    exact ⟨hreduced, h.nested.get_reduceKeep hlevel hv r⟩

/-- The records of two inner groups, one of them empty, are counted. -/
theorem reduce_folds_of_inner_groups :
    let v := Value.array [.array [.null, .bool true], .array []]
    let count := Reducer.aggregate (({} : Aggregate).count "n")
    let counted := fun n : Nat => Value.object [("n", .ofCount n)]
    ∃ d, ofNested v 2 = .ok d ∧ Reachable d ∧
      (d.reduce count).dataset.level = 1 ∧
      (d.reduce count).dataset.get.result = .ok (.array [counted 2, counted 0]) ∧
      (d.reduceKeep count).dataset.get.result =
        .ok (.array [.array [counted 2], .array [counted 0]]) := by
  intro v count counted
  obtain ⟨d, hd⟩ : ∃ d, ofNested v 2 = .ok d := ⟨_, rfl⟩
  obtain ⟨hreachable, hlevel, hv⟩ := reachable_ofNested hd
  obtain ⟨-, hlower, -, -, w, hw, -, -, hdeep⟩ := reduce_folds hreachable count
  obtain ⟨hreduced, hkept⟩ := hdeep 1 hlevel
  cases hv.symm.trans hw
  rw [hlevel] at hlower
  exact ⟨d, hd, hreachable, hlower, hreduced, hkept⟩

end Dataset

end RecordFlow
