import RecordFlow.Proofs.Dataset.Alike
import RecordFlow.Proofs.Dataset.Reports

/-!
# Refused calls

A call that fails leaves a dataset that is as good as the one before it. It may have pulled all
items, which then are kept in their order, and so may have made pending merges report.
-/

namespace RecordFlow

/-- Pending merges report that they are finished, and nothing else. -/
theorem Merge.Pending.events_released (p : Merge.Pending) :
    p.released.filterMap Emission.event? =
      (finishes p.released).map fun f => Event.mergeFinished f.2 := by
  induction p with
  | nothing => rfl
  | merge job onLeft onRight ihLeft ihRight =>
    have hreport : job.report.filterMap Emission.event? =
        (finishes job.report).map fun f => Event.mergeFinished f.2 := by
      unfold Merge.Job.report
      rw [Merge.finishes_closing]
      cases job.observer <;> rfl
    simp only [Merge.Pending.released, List.filterMap_append, finishes_append, List.map_append,
      ihLeft, ihRight, hreport]

namespace Dataset

variable {d : Dataset} {c : Call} {e : Error}

/-- A refused call does not touch the dataset, or pulls all its items and puts them back. -/
theorem Nested.refused_cases (hd : d.Nested) (h : d.Refuses c e) :
    ((d.answer c).dataset = d ∧ (d.answer c).released = []) ∨
      d.level = 1 ∧ (d.answer c).dataset = { d with data := .nodes (.ofList d.data.toNode.items) } ∧
        (d.answer c).released = d.data.released := by
  have huntouched : ∀ o : Outcome Unit, o = ⟨d, [], .error e⟩ →
      o.valueless.dataset = d ∧ o.valueless.released = [] := by
    rintro _ rfl
    exact ⟨rfl, rfl⟩
  cases h with
  | ungroupBelowZero hlevel => exact .inl (huntouched _ (ungroup_of_zero hlevel))
  | @collapseNotSingle f hlevel hcount =>
    refine .inr ⟨hlevel, ?_⟩
    show (d.ungroup f).dataset = _ ∧ (d.ungroup f).released = _
    rw [ungroup_of_one hlevel, hd.collapse_of_length_ne hlevel hcount]
    exact ⟨rfl, rfl⟩
  | mergeDepth hdepth => exact .inl (huntouched _ (merge_of_depth hdepth))
  | mergeParameters hlevel hi hfault =>
    have hplan := Merge.Plan.make_eq_error_iff.2 ⟨_, hfault, rfl⟩
    exact .inl (huntouched _ (merge_of_error hlevel hi hplan))

theorem Nested.alike_of_refuses (hd : d.Nested) (h : d.Refuses c e) :
    d.Alike (d.answer c).dataset := by
  rcases hd.refused_cases h with ⟨hsame, -⟩ | ⟨hlevel, hkept, -⟩
  · rw [hsame]
    exact .refl d
  · rw [hkept]
    refine ⟨rfl, rfl, ?_⟩
    -- at level one the data are a group, so its items are all there is to keep
    unfold Nested at hd
    rw [hlevel] at hd
    obtain ⟨items, hitems, -⟩ := Node.nested_succ_iff.1 hd
    show Node.group (Feed.ofList d.data.toNode.items).items = d.data.toNode
    rw [Feed.items_ofList, hitems]
    rfl

theorem Reachable.events_of_refuses (hd : Reachable d) (h : d.Refuses c e) :
    ∀ event ∈ (d.answer c).released.filterMap Emission.event?, ∃ stats,
      event = .mergeFinished stats := by
  intro event hevent
  rcases hd.nested.refused_cases h with ⟨-, hsilent⟩ | ⟨-, -, hpulled⟩
  · rw [hsilent] at hevent
    cases hevent
  · obtain ⟨p, hp⟩ := hd.awaits
    have hreleased : d.data.released = p.released := hp.governs.released_eq
    rw [hpulled, hreleased, p.events_released] at hevent
    obtain ⟨f, -, hf⟩ := List.mem_map.1 hevent
    exact ⟨f.2, hf.symm⟩

/-- **A failed call changes nothing.** The dataset stays at its level, with its items in their order
and its observer, and whatever is done with it later shows the same as if the call had not been
made. The call reports no operation: all it may set free are reports of merges. -/
theorem failed_call_changes_nothing (h : Reachable d) (hfail : (d.answer c).result = .error e) :
    (d.answer c).dataset.level = d.level ∧
      (d.answer c).dataset.data.toNode = d.data.toNode ∧
      (d.answer c).dataset.observer = d.observer ∧
      (∀ use : Use, use.shows (d.answer c).dataset = use.shows d) ∧
      ∀ event ∈ (d.answer c).released.filterMap Emission.event?, ∃ stats,
        event = .mergeFinished stats := by
  have hrefused : d.Refuses c e := h.nested.answer_eq_error_iff.1 hfail
  have halike := h.nested.alike_of_refuses hrefused
  exact ⟨halike.level, halike.node, halike.observer, halike.shows_eq, h.events_of_refuses hrefused⟩

/-- A merge is pending when ungrouping fails on its two rows. -/
theorem failed_call_changes_nothing_of_pending_merge :
    let rows := { ofRecords [.null, .bool true] with observer := some (.named "rows") }
    let d := (rows.answer (.merge (ofRecords [.bool true, .null]) (.records .inner) {})).dataset
    let after := (d.answer .flatten).dataset
    Reachable d ∧ (d.answer .flatten).result = .error (.collapseNotSingle 2) ∧ after.level = 1 ∧
      after.data.toNode = .group [.record (.bool true), .record .null] ∧
      ∀ use : Use, use.shows after = use.shows d := by
  intro rows d after
  have hrows : Reachable rows :=
    .source (.records [.null, .bool true]) (some (.named "rows")) rfl
  have hother : Reachable (ofRecords [.bool true, .null]) :=
    .source (.records [.bool true, .null]) none rfl
  have hd : Reachable d := hrows.answer fun i hi => by cases hi; exact hother
  have hnode : d.data.toNode = .group [.record (.bool true), .record .null] := by
    show Node.group (Merge.feeds _ _ _ _).items = _
    rw [Merge.items_feeds]
    rfl
  have hrefused : d.Refuses .flatten (.collapseNotSingle d.data.toNode.items.length) :=
    .collapseNotSingle rfl (by rw [hnode]; decide)
  rw [hnode] at hrefused
  have hfail := hd.nested.answer_eq_error_iff.2 hrefused
  obtain ⟨hlevel, hkept, -, hshows, -⟩ := failed_call_changes_nothing hd hfail
  exact ⟨hd, hfail, hlevel, hkept.trans hnode, hshows⟩

end Dataset

end RecordFlow
