import RecordFlow.Proofs.Dataset.Distinct
import RecordFlow.Proofs.Merge.Symmetry

/-!
# Merges of reordered rows

A merge that keeps all rows takes them for bags: reordering the rows of either side reorders the
output and leaves every counter as it is (`Dataset.merge_of_reordered`). The runs have nothing in
common step by step, for other buckets come first and other rows are looked up, so the argument is
about their combinations as a whole.
-/

namespace RecordFlow

namespace Merge

/-! ## Combinations of reordered rows -/

section Reordered

variable {lk rk : Value → Key} {left left' right right' : List Value}

theorem unmatched_perm {key otherKey : Value → Key} {rows rows' others others' : List Value}
    (hrows : rows.Perm rows') (hothers : others.Perm others') :
    (unmatched key otherKey rows others).Perm (unmatched key otherKey rows' others') := by
  unfold unmatched
  simp only [hothers.mem_iff]
  exact hrows.filter _

/-- Reordered rows have the same combinations, in some order. -/
theorem combinations_perm_of_perm (hleft : left.Perm left') (hright : right.Perm right') :
    (combinations lk rk left right).Perm (combinations lk rk left' right') := by
  have hpairs : (matchedPairs lk rk left right).Perm (matchedPairs lk rk left' right') :=
    (hleft.product hright).filter _
  refine (combinations_perm lk rk left right).trans ?_
  refine List.Perm.trans ?_ (combinations_perm lk rk left' right').symm
  exact ((hpairs.map _).append ((unmatched_perm hright hleft).map _)).append
    ((unmatched_perm hleft hright).map _)

namespace Plan

variable {p : Plan} (hdistinct : p.distinct = false)

include hdistinct

/-- A merge that keeps all rows makes all their combinations. -/
theorem allMade_of_keeps_all (left right : List Value) :
    p.allMade left right = combinations p.selectors.left p.selectors.right left right := by
  rw [allMade_eq_combinations]
  unfold stored probed kept
  rw [hdistinct]
  rfl

theorem allMade_perm (hleft : left.Perm left') (hright : right.Perm right') :
    (p.allMade left right).Perm (p.allMade left' right') := by
  rw [allMade_of_keeps_all hdistinct, allMade_of_keeps_all hdistinct]
  exact combinations_perm_of_perm hleft hright

theorem rows_perm (hleft : left.Perm left') (hright : right.Perm right') :
    (p.rows left right).Perm (p.rows left' right') :=
  (allMade_perm hdistinct hleft hright).filterMap _

/-- No counter depends on the order of rows. -/
theorem account_eq_of_perm (hleft : left.Perm left') (hright : right.Perm right') :
    p.account left right = p.account left' right' := by
  have hstored : (p.stored left).length = (p.stored left').length := by
    unfold stored kept
    rw [hdistinct]
    exact hleft.length_eq
  have hprobed : (p.probed right).length = (p.probed right').length := by
    unfold probed kept
    rw [hdistinct]
    exact hright.length_eq
  have hmade := allMade_perm hdistinct hleft hright
  have hcount : ∀ test : Combination → Bool,
      (p.allMade left right).countP test = (p.allMade left' right').countP test :=
    fun test => hmade.countP_eq test
  have hrows := (rows_perm hdistinct hleft hright).length_eq
  unfold account tally
  rw [MergeStats.mk.injEq, hstored, hprobed, hright.length_eq]
  exact ⟨rfl, rfl, rfl, hcount _, hcount _, hcount _, hrows⟩

end Plan

end Reordered

end Merge

namespace Dataset

variable {left left' right right' : List Value}

/-- **A merge that keeps all rows does not depend on their order.** If the rows of both sides are
reordered, the merge is refused as before, or it delivers the same rows in some order and reports
the same counters. -/
theorem merge_of_reordered (hleft : left.Perm left') (hright : right.Perm right')
    (matcher : Merge.Matcher) {options : Merge.Options} (hdistinct : options.distinct = false) :
    (∀ fault, Merge.Disagree matcher options fault →
      Merge.records left right matcher options = .error (.parameterMismatch fault) ∧
        Merge.records left' right' matcher options = .error (.parameterMismatch fault)) ∧
      ((∀ fault, ¬ Merge.Disagree matcher options fault) →
        ∃ (rows rows' : List Value) (stats : MergeStats),
          Merge.records left right matcher options = .ok rows ∧
            Merge.records left' right' matcher options = .ok rows' ∧ rows.Perm rows' ∧
            ∀ d d' incoming incoming' : Dataset, d.Holds left → d'.Holds left' →
              incoming.Holds right → incoming'.Holds right' →
                let merged := d.merge incoming matcher options
                let merged' := d'.merge incoming' matcher options
                (merged.andThen fun _ d => d.get).result = .ok (.array rows) ∧
                  (merged'.andThen fun _ d => d.get).result = .ok (.array rows') ∧
                  merged.dataset.get.released =
                    d.data.released ++ incoming.data.released ++ Merge.closing d.observer stats ++
                      Emission.announce d.observer (.materialized 1) ∧
                  merged'.dataset.get.released =
                    d'.data.released ++ incoming'.data.released ++
                      Merge.closing d'.observer stats ++
                      Emission.announce d'.observer (.materialized 1)) := by
  refine ⟨fun fault hfault => ?_, fun hagree => ?_⟩
  · have hplan := Merge.Plan.make_eq_error_iff.2 ⟨fault, hfault, rfl⟩
    have hrefused : ∀ left right, Merge.records left right matcher options =
        .error (.parameterMismatch fault) := by
      intro left right
      unfold Merge.records
      rw [hplan]
      rfl
    exact ⟨hrefused left right, hrefused left' right'⟩
  · obtain ⟨plan, hplan, hkeeps⟩ : ∃ plan, Merge.Plan.make matcher options = .ok plan ∧
        plan.distinct = false := ⟨_, Merge.Plan.make_of_agree hagree, hdistinct⟩
    refine ⟨plan.rows left right, plan.rows left' right', plan.account left right,
      Merge.records_of_plan hplan left right, Merge.records_of_plan hplan left' right',
      Merge.Plan.rows_perm hkeeps hleft hright, ?_⟩
    intro d d' incoming incoming' hd hd' hi hi' merged merged'
    obtain ⟨hok, hholds, hreleased⟩ := hd.merge hi hplan
    obtain ⟨hok', hholds', hreleased'⟩ := hd'.merge hi' hplan
    rw [← Merge.Plan.account_eq_of_perm hkeeps hleft hright] at hreleased'
    exact ⟨(merged.result_andThen _ hok).trans hholds.get,
      (merged'.result_andThen _ hok').trans hholds'.get, hreleased, hreleased'⟩

/-- Rows of one key on both sides, rows that only one side has, and pairs that are dropped. -/
theorem merge_of_reordered_of_duplicates :
    let combine : Option Value → Option Value → Option Value := fun l r =>
      if l.isSome then some (.array [l.getD .null, r.getD .null]) else none
    let options : Merge.Options := { combiner := some (.custom combine) }
    let a := Value.string "a"
    let left := [a, .null, a]
    let left' := [.null, a, a]
    let right := [a, .bool true]
    let right' := [.bool true, a]
    left.Perm left' ∧ right.Perm right' ∧ options.distinct = false ∧
      ∃ rows rows' : List Value,
        Merge.records left right (.on (.custom id id)) options = .ok rows ∧
          Merge.records left' right' (.on (.custom id id)) options = .ok rows' ∧
          rows.Perm rows' := by
  intro combine options a left left' right right'
  have hleft : left.Perm left' := .swap .null a [a]
  have hright : right.Perm right' := .swap (.bool true) a []
  have hagree : ∀ fault, ¬ Merge.Disagree (.on (.custom id id)) options fault := by
    rintro _ ⟨hset⟩
    cases hset
  obtain ⟨rows, rows', -, hrows, hrows', hperm, -⟩ :=
    (merge_of_reordered hleft hright (.on (.custom id id)) rfl).2 hagree
  exact ⟨hleft, hright, rfl, rows, rows', hrows, hrows', hperm⟩

end Dataset

end RecordFlow
