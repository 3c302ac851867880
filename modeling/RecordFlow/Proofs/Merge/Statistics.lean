import RecordFlow.Proofs.Merge.Matches
import RecordFlow.Proofs.Merge.Run

/-!
# Merge statistics

The counters that a merge reports are counts of its rows: of the left rows it keeps, of the right
rows it looks up, of the pairs of rows with one key, and of the rows of either side that no row of
the other side matches.
-/

namespace RecordFlow.Merge

/-! ## Counting combinations -/

section Counts

variable {lk rk : Value → Key} (left right : List Value)

theorem countP_paired :
    (combinations lk rk left right).countP Combination.paired =
      ((left ×ˢ right).filter fun q => lk q.1 = rk q.2).length := by
  rw [(combinations_perm lk rk left right).countP_eq]
  simp [List.countP_map, Function.comp_def, Combination.paired, matchedPairs]

theorem countP_rightOnly :
    (combinations lk rk left right).countP Combination.rightOnly =
      (right.filter fun r => ∀ l ∈ left, lk l ≠ rk r).length := by
  rw [(combinations_perm lk rk left right).countP_eq]
  simp [List.countP_map, Function.comp_def, Combination.rightOnly, unmatched]

theorem countP_leftOnly :
    (combinations lk rk left right).countP Combination.leftOnly =
      (left.filter fun l => ∀ r ∈ right, rk r ≠ lk l).length := by
  rw [(combinations_perm lk rk left right).countP_eq]
  simp [List.countP_map, Function.comp_def, Combination.leftOnly, unmatched]

theorem isSome_of_mem_combinations {c : Combination} (hc : c ∈ combinations lk rk left right) :
    c.1.isSome ∨ c.2.isSome := by
  rcases List.mem_append.1 hc with hc | hc
  · obtain ⟨row, -, hc⟩ := List.mem_flatMap.1 hc
    unfold withPartners at hc
    split at hc
    · exact .inr (by rw [List.mem_singleton.1 hc]; rfl)
    · obtain ⟨l, -, rfl⟩ := List.mem_map.1 hc
      exact .inl rfl
  · obtain ⟨l, -, -, rfl⟩ := mem_alone.1 hc
    exact .inl rfl

/-- Combinations have both rows or lack one of them. -/
theorem length_eq_counts {cs : List Combination} (h : ∀ c ∈ cs, c.1.isSome ∨ c.2.isSome) :
    cs.length = cs.countP Combination.paired + cs.countP Combination.rightOnly +
      cs.countP Combination.leftOnly := by
  induction cs with
  | nil => rfl
  | cons c cs ih =>
    have hc := h c List.mem_cons_self
    have hcs := ih fun d hd => h d (List.mem_cons_of_mem c hd)
    simp only [List.length_cons, List.countP_cons, hcs]
    obtain ⟨l, r⟩ := c
    cases l <;> cases r <;>
      simp [Combination.paired, Combination.rightOnly, Combination.leftOnly] at hc ⊢ <;> omega

end Counts

/-- Combinations make a row each, but for those that the combiner drops. -/
theorem length_outputs (p : Plan) (cs : List Combination) :
    (p.outputs cs).length + cs.countP (fun c => (p.combiner.apply c.1 c.2).isNone) = cs.length := by
  unfold Plan.outputs Plan.output
  induction cs with
  | nil => rfl
  | cons c cs ih =>
    rw [List.filterMap_cons, List.countP_cons, List.length_cons, ← ih]
    cases p.combiner.apply c.1 c.2 <;> simp <;> omega

/-! ## The report -/

/-- **Merge statistics account for every row.** The report of a merge whose output is pulled to its
end comes after all that its sides set free, and every counter in it is a count of rows. -/
theorem statistics_account_for_rows (plan : Plan) (observer : Option Observer)
    (left right : Feed Node) :
    ∃ stats : MergeStats,
      (feeds plan observer left right).released =
        left.released ++ right.released ++ closing observer stats ∧
      stats.leftRows =
        (if plan.distinct then (keysOf plan.selectors.left (rowsOf left)).length
        else (rowsOf left).length) ∧
      stats.skippedDuplicates =
        (if plan.distinct then
          (rowsOf right).length - (keysOf plan.selectors.right (rowsOf right)).length
        else 0) ∧
      stats.probes + stats.skippedDuplicates = (rowsOf right).length ∧
      stats.matchedPairs =
        ((plan.stored (rowsOf left) ×ˢ plan.probed (rowsOf right)).filter fun q =>
          plan.selectors.left q.1 = plan.selectors.right q.2).length ∧
      stats.rightOnly =
        ((plan.probed (rowsOf right)).filter fun r =>
          ∀ l ∈ plan.stored (rowsOf left), plan.selectors.left l ≠ plan.selectors.right r).length ∧
      stats.leftOnly =
        ((plan.stored (rowsOf left)).filter fun l =>
          ∀ r ∈ plan.probed (rowsOf right), plan.selectors.right r ≠ plan.selectors.left l).length ∧
      stats.emitted = (feeds plan observer left right).items.length ∧
      stats.emitted +
          (combinations plan.selectors.left plan.selectors.right (plan.stored (rowsOf left))
            (plan.probed (rowsOf right))).countP
            (fun c => (plan.combiner.apply c.1 c.2).isNone) =
        stats.matchedPairs + stats.rightOnly + stats.leftOnly := by
  have hmade := Plan.allMade_eq_combinations (p := plan) (rowsOf left) (rowsOf right)
  have hprobed : (plan.probed (rowsOf right)).length = _ := length_kept _ _ _
  have hle : (plan.probed (rowsOf right)).length ≤ (rowsOf right).length := length_kept_le _ _ _
  refine ⟨plan.account (rowsOf left) (rowsOf right), released_feeds .., length_kept _ _ _, ?_, ?_,
    ?_, ?_, ?_, ?_, ?_⟩
  · show (rowsOf right).length - (plan.probed (rowsOf right)).length = _
    rw [hprobed]
    split_ifs
    · rfl
    · exact Nat.sub_self _
  · exact Nat.add_sub_cancel' hle
  · exact (congrArg _ hmade).trans (countP_paired _ _)
  · exact (congrArg _ hmade).trans (countP_rightOnly _ _)
  · exact (congrArg _ hmade).trans (countP_leftOnly _ _)
  · rw [items_feeds, List.length_map]
    rfl
  · rw [← hmade]
    refine (length_outputs plan _).trans (length_eq_counts fun c hc => ?_)
    exact isSome_of_mem_combinations _ _ (hmade ▸ hc)

end RecordFlow.Merge
