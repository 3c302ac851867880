import RecordFlow.Dataset.Source
import RecordFlow.Proofs.Dataset.Nesting
import RecordFlow.Proofs.StableSort

/-!
# Datasets that calls leave behind

From any source on, calls leave datasets whose data are nested to the level (`Dataset.Reachable`).
So a shape mismatch is never met, and a call that fails is one that the dataset refuses
(`Dataset.Refuses`). All others succeed, if no sort was called for by an order that is none
(`Dataset.Orderly`).
-/

namespace RecordFlow

/-- The dataset that a call merges in, if it merges one. -/
def Call.incoming? : Call → Option Dataset
  | .merge incoming _ _ => some incoming
  | _ => none

/-- A call sorts by a total preorder of the records of every base group, if it sorts. Where
comparing them is no total preorder, a sort may break off once it is pulled, and no result is
promised. -/
def Call.Orderly (d : Dataset) : Call → Prop
  | .sort sorting =>
    ∀ records ∈ d.data.toNode.baseGroups d.level, TotalPreorder sorting.order records
  | _ => True

namespace Dataset

variable {d incoming : Dataset} {matcher : Merge.Matcher} {options : Merge.Options}

/-! ## Refused calls -/

/-- The calls that a dataset refuses, and why. -/
inductive Refuses (d : Dataset) : Call → Error → Prop where
  | ungroupBelowZero {f : Value → Value} (h : d.level = 0) :
    Refuses d (.ungroup f) .ungroupBelowZero
  | collapseNotSingle {f : Value → Value} (h : d.level = 1)
    (hcount : d.data.toNode.items.length ≠ 1) :
    Refuses d (.ungroup f) (.collapseNotSingle d.data.toNode.items.length)
  | mergeDepth {incoming : Dataset} {matcher : Merge.Matcher} {options : Merge.Options}
    (h : d.level ≠ 1 ∨ incoming.level ≠ 1) :
    Refuses d (.merge incoming matcher options) (.unsupportedMergeDepth d.level incoming.level)
  | mergeParameters {incoming : Dataset} {matcher : Merge.Matcher} {options : Merge.Options}
    {fault : ParameterFault} (hd : d.level = 1) (hi : incoming.level = 1)
    (h : Merge.Disagree matcher options fault) :
    Refuses d (.merge incoming matcher options) (.parameterMismatch fault)

namespace Nested

theorem ungroup_eq_error_iff (h : d.Nested) {f : Value → Value} {e : Error} :
    (d.ungroup f).result = .error e ↔ d.Refuses (.ungroup f) e := by
  constructor
  · intro hresult
    match hlevel : d.level with
    | 0 =>
      rw [ungroup_of_zero hlevel] at hresult
      cases hresult
      exact .ungroupBelowZero hlevel
    | 1 =>
      rw [ungroup_of_one hlevel] at hresult
      rcases h.collapse_cases hlevel with ⟨v, hitems⟩ | hcount
      · rw [collapse_of_single hitems] at hresult
        cases hresult
      · rw [h.collapse_of_length_ne hlevel hcount] at hresult
        cases hresult
        exact .collapseNotSingle hlevel hcount
    | level + 2 =>
      rw [ungroup_of_succ hlevel] at hresult
      cases hresult
  · rintro (hlevel | ⟨hlevel, hcount⟩)
    · rw [ungroup_of_zero hlevel]
    · rw [ungroup_of_one hlevel, h.collapse_of_length_ne hlevel hcount]
      rfl

theorem look_valued_ne_error (h : d.Nested) {way : Dataset → Outcome Value} (hway : Looks way)
    (e : Error) : (way d).valued.result ≠ .error e := by
  obtain ⟨v, heq⟩ := h.look_eq hway
  rw [heq]
  exact nofun

/-- Once every base group is folded to one record, ungrouping works. -/
theorem reduceWith_result (h : d.Nested) (r : Reducer) (ungroupAfter : Bool) :
    (d.reduceWith r ungroupAfter).result = .ok () := by
  have hkeep : (d.reduceKeep r).dataset.Nested := h.chain .reduce (.reduce r)
  rw [reduceWith_eq]
  split_ifs with hungroup
  · show (d.reduceKeep r).dataset.flatten.result = .ok ()
    cases hresult : (d.reduceKeep r).dataset.flatten.result with
    | ok => rfl
    | error e =>
      have hpos : 0 < d.level := by simpa using (Bool.and_eq_true_iff.1 hungroup).2
      cases hkeep.ungroup_eq_error_iff.1 hresult with
      | ungroupBelowZero hlevel => exact absurd hlevel (Nat.ne_of_gt hpos)
      | collapseNotSingle hlevel hcount =>
        -- a folded base sequence holds exactly one record
        have hlevel : d.level = 1 := hlevel
        have hdata : (d.reduceKeep r).dataset.data = d.data.mapBase (.reduce r) d.level := rfl
        rw [hdata, Data.toNode_mapBase (.reduce r), hlevel] at hcount
        unfold Nested at h
        rw [hlevel] at h
        obtain ⟨items, hitems, -⟩ := Node.nested_succ_iff.1 h
        rw [hitems] at hcount
        exact absurd (by simp [Node.mapBase, Node.items, Stage.onList, Stage.reduce]) hcount
  · rfl

end Nested

theorem merge_eq_error_iff {e : Error} :
    (d.merge incoming matcher options).result = .error e ↔
      d.Refuses (.merge incoming matcher options) e := by
  constructor
  · intro hresult
    by_cases hdepth : d.level ≠ 1 ∨ incoming.level ≠ 1
    · rw [merge_of_depth hdepth] at hresult
      cases hresult
      exact .mergeDepth hdepth
    · obtain ⟨hd, hi⟩ : d.level = 1 ∧ incoming.level = 1 := by simpa [not_or] using hdepth
      cases hplan : Merge.Plan.make matcher options with
      | error e =>
        rw [merge_of_error hd hi hplan] at hresult
        cases hresult
        obtain ⟨fault, hfault, rfl⟩ := Merge.Plan.make_eq_error_iff.1 hplan
        exact .mergeParameters hd hi hfault
      | ok plan =>
        rw [merge_of_plan hd hi hplan] at hresult
        cases hresult
  · rintro (_ | _ | hdepth | ⟨hd, hi, hfault⟩)
    · rw [merge_of_depth hdepth]
    · rw [merge_of_error hd hi (Merge.Plan.make_eq_error_iff.2 ⟨_, hfault, rfl⟩)]

/-- A call fails exactly when it is refused. -/
theorem Nested.answer_eq_error_iff (h : d.Nested) {c : Call} {e : Error} :
    (d.answer c).result = .error e ↔ d.Refuses c e := by
  cases c with
  | ungroup f => exact Outcome.valueless_eq_error_iff.trans h.ungroup_eq_error_iff
  | merge incoming matcher options => exact Outcome.valueless_eq_error_iff.trans merge_eq_error_iff
  | reduceWith r ungroupAfter =>
    refine Outcome.valueless_eq_error_iff.trans ?_
    rw [h.reduceWith_result]
    exact ⟨nofun, nofun⟩
  | get => exact iff_of_false (h.look_valued_ne_error .get e) nofun
  | inspect see => exact iff_of_false (h.look_valued_ne_error (.inspect see) e) nofun
  | getWith f => exact iff_of_false (h.look_valued_ne_error (.getWith f) e) nofun
  | _ => exact ⟨nofun, nofun⟩

/-! ## Whole runs -/

/-- The datasets that calls leave behind, whether they succeed or not, from any source on. -/
inductive Reachable : Dataset → Prop where
  | source (s : Source) (observer : Option Observer) {d : Dataset}
    (h : (s.datasetWith observer).2 = .ok d) : Reachable d
  | answer {d : Dataset} {c : Call} (h : Reachable d)
    (hc : ∀ incoming, c.incoming? = some incoming → Reachable incoming) :
    Reachable (d.answer c).dataset

theorem Reachable.run {calls : List Call} (h : Reachable d)
    (hcalls : ∀ c ∈ calls, ∀ incoming, c.incoming? = some incoming → Reachable incoming) :
    Reachable (d.run calls) := by
  induction calls generalizing d with
  | nil => exact h
  | cons c calls ih =>
    have hrest : ∀ c' ∈ calls, ∀ incoming, c'.incoming? = some incoming → Reachable incoming :=
      fun c' hc' => hcalls c' (List.mem_cons_of_mem c hc')
    exact ih (h.answer (hcalls c List.mem_cons_self)) hrest

/-- A source gives data nested to the level, and pulling them sets nothing free. -/
theorem source_data {s : Source} {observer : Option Observer}
    (h : (s.datasetWith observer).2 = .ok d) :
    ∃ node, node.Nested d.level ∧ d.data = .ofNode node := by
  have hrecords : ∀ vs o, ∃ node, node.Nested (ofRecords vs o).level ∧
      (ofRecords vs o).data = .ofNode node :=
    fun vs o => ⟨.group (vs.map .record), .group (Node.nested_map_record vs), rfl⟩
  have hmap : s.dataset.2.map (fun d => { d with observer := observer }) = .ok d := h
  cases hstart : s.dataset.2 with
  | error e => rw [hstart] at hmap; cases hmap
  | ok start =>
    rw [hstart] at hmap
    cases hmap
    show ∃ node, node.Nested start.level ∧ start.data = .ofNode node
    cases s with
    | records vs => cases hstart; exact hrecords vs {}
    | nested v level =>
      obtain ⟨node, hnode, ⟨⟩⟩ := bind_eq_ok_iff.1 hstart
      exact ⟨node, Node.nested_of_ofValue? hnode, rfl⟩
    | file readers path options content =>
      have hfile : (Load.ofFile readers path options content).2.map (fun vs => ofRecords vs) =
          .ok start := hstart
      cases hloaded : (Load.ofFile readers path options content).2 with
      | error e => rw [hloaded] at hfile; cases hfile
      | ok vs => rw [hloaded] at hfile; cases hfile; exact hrecords vs {}

theorem nested_source {s : Source} {observer : Option Observer}
    (h : (s.datasetWith observer).2 = .ok d) : d.Nested := by
  obtain ⟨node, hnode, hdata⟩ := source_data h
  unfold Nested
  rw [hdata, Data.toNode_ofNode]
  exact hnode

theorem Reachable.nested (h : Reachable d) : d.Nested := by
  induction h with
  | source s observer h => exact nested_source h
  | answer _ _ ih => exact ih.answer _

/-- Data read from nested arrays give those arrays back. -/
theorem reachable_ofNested {v : Value} {level : Nat} (hd : ofNested v level = .ok d) :
    Reachable d ∧ d.level = level ∧ d.get.result = .ok v := by
  obtain ⟨node, hnode, hmade⟩ := bind_eq_ok_iff.1 hd
  cases hmade
  have hsource : ((Source.nested v level).datasetWith none).2 =
      .ok ⟨.ofNode node, level, none⟩ := congrArg (Except.map _) hd
  have hreachable := Reachable.source _ _ hsource
  refine ⟨hreachable, rfl, ?_⟩
  rw [hreachable.nested.result_get, Data.toNode_ofNode]
  exact Node.ofValue?_eq_ok_iff.1 hnode

/-! ## Runs that keep to an order -/

/-- The datasets that calls leave behind, whether they succeed or not, if all that sort do so by an
order. -/
inductive Orderly : Dataset → Prop where
  | source (s : Source) (observer : Option Observer) {d : Dataset}
    (h : (s.datasetWith observer).2 = .ok d) : Orderly d
  | answer {d : Dataset} {c : Call} (h : Orderly d) (hsort : c.Orderly d)
    (hc : ∀ incoming, c.incoming? = some incoming → Orderly incoming) :
    Orderly (d.answer c).dataset

theorem Orderly.reachable (h : Orderly d) : Reachable d := by
  induction h with
  | source s observer h => exact .source s observer h
  | answer _ _ _ ih ihIncoming => exact ih.answer ihIncoming

/-- **Depth invariant.** After any calls the data are nested to exactly the level, so no shape
mismatch is met and no call fails but ungrouping at level zero or with a number of items other than
one, and merging off level one or with a matcher and options that disagree. After calls of which all
that sort do so by an order, these fail, and all others return: values can always be had, and base
groups reduced. -/
theorem depth_invariant (d : Dataset) :
    (Reachable d →
      d.data.toNode.Nested d.level ∧
        (∀ c e, (d.answer c).result = .error e → d.Refuses c e) ∧
        (∀ e, d.intoValue.2 ≠ .error e) ∧
        ∀ c fault, (d.answer c).result ≠ .error (.shapeMismatch fault)) ∧
      (Orderly d →
        (∀ c e, (d.answer c).result = .error e ↔ d.Refuses c e) ∧
        (∃ v, d.get.result = .ok v ∧ d.intoValue.2 = .ok v ∧
          ∀ (α : Type) (see : Value → α), (d.inspect see).result = .ok (see v)) ∧
        (∀ f, ∃ v, (d.getWith f).result = .ok v) ∧
        ∀ r, (d.reduce r).result = .ok ()) := by
  constructor
  · intro h
    have hd := h.nested
    refine ⟨hd, fun c e => hd.answer_eq_error_iff.1, ?_, ?_⟩
    · obtain ⟨v, -, hvalue⟩ := hd.intoValue_eq
      rw [hvalue]
      exact nofun
    · intro c fault hresult
      cases hd.answer_eq_error_iff.1 hresult
  · intro h
    have hd := h.reachable.nested
    refine ⟨fun c e => hd.answer_eq_error_iff, ?_, fun f => ?_, fun r => ?_⟩
    · obtain ⟨v, hv, hvalue⟩ := hd.intoValue_eq
      refine ⟨v, hd.result_get.trans hv, by rw [hvalue], fun α see => ?_⟩
      obtain ⟨w, hw, hinspect⟩ := hd.inspect_eq see
      cases (hd.result_get.trans hv).symm.trans hw
      rw [hinspect]
    · obtain ⟨v, -, hget⟩ := hd.getWith_eq f
      exact ⟨v, by rw [hget]⟩
    · exact hd.reduceWith_result r true

/-- Two records are sorted, grouped and flattened, with two calls in between that fail. -/
theorem depth_invariant_after_failed_calls :
    let other := ofRecords [.null]
    let d := (ofRecords [.bool true, .null]).run
      [.sort (.key id), .flatten, .group id, .merge other (.records .inner) {}, .flatten]
    Orderly d ∧ d.level = 1 ∧ (d.answer .flatten).result = .error (.collapseNotSingle 2) ∧
      (d.inspect Value.kind).result = .ok .array := by
  intro other d
  have hother : Orderly other := .source (.records [.null]) none rfl
  have hstart : Orderly (ofRecords [.bool true, .null]) :=
    .source (.records [.bool true, .null]) none rfl
  have horder : TotalPreorder (Sorting.key id).order [.bool true, .null] :=
    ⟨by decide, by decide⟩
  have hd : Orderly d := by
    refine .answer (.answer (.answer (.answer (.answer hstart ?_ nofun) trivial nofun) trivial
      nofun) trivial fun i hi => ?_) trivial nofun
    · exact List.forall_mem_singleton.2 horder
    · cases hi
      exact hother
  obtain ⟨hfails, ⟨v, hv, -, hinspect⟩, -⟩ := (depth_invariant d).2 hd
  refine ⟨hd, rfl, (hfails _ _).2 ?_, ?_⟩
  · exact .collapseNotSingle rfl (by decide)
  · have hget : d.get.result = .ok (.array [.null, .bool true]) := rfl
    rw [hinspect]
    cases hv.symm.trans hget
    rfl

end Dataset

end RecordFlow
