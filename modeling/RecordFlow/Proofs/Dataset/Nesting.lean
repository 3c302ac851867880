import RecordFlow.Dataset.Call
import RecordFlow.Proofs.Merge.Run
import RecordFlow.Proofs.Stage

/-!
# Datasets stay nested to their level

The data and the level of a dataset change in separate places. Whatever is called on a dataset,
and whether the call succeeds or not, the data stay nested to the level (`Dataset.Nested.answer`).
-/

namespace RecordFlow

/-! ## Data -/

namespace Data

variable {s : Stage} {j k level : Nat}

/-- All that pulling the data sets free. -/
def released (data : Data) : List Emission := data.toFeed.released

@[simp] theorem toNode_ofNode (node : Node) : (ofNode node).toNode = node := by
  cases node with
  | record v => rfl
  | group items => exact congrArg Node.group (Feed.items_ofList items)

@[simp] theorem released_ofNode (node : Node) : (ofNode node).released = [] := by
  cases node with
  | record v => rfl
  | group items => exact Feed.released_ofList items

theorem items_toFeed (data : Data) : data.toFeed.items = data.toNode.items := by
  cases data with
  | item v => exact Feed.items_ofList _
  | nodes feed => rfl

/-- Applying a stage to data is applying it to the node that they are. -/
theorem toNode_mapBase (hs : s.Chained j k) (data : Data) :
    (data.mapBase s level).toNode = data.toNode.mapBase s level := by
  match level, data with
  | 0, data => exact toNode_ofNode _
  | _ + 1, .item v => rfl
  | 1, .nodes feed => exact congrArg Node.group (hs.items_eq feed)
  | level + 2, .nodes feed => exact congrArg Node.group (Feed.items_map _ feed)

/-- The value of data is that of the node that they are. -/
theorem toValue_snd (level : Nat) (data : Data) :
    (data.toValue level).2 = data.toNode.toValue level := by
  match level, data with
  | 0, .item v => rfl
  | 0, .nodes feed => rfl
  | _ + 1, .item v => rfl
  | level + 1, .nodes feed =>
    exact (congrArg _ (Feed.traverse_snd _ feed)).trans (Node.toValue_group level feed.items).symm

/-- Data nested to a level are pulled to their end when their value is asked for. -/
theorem toValue_fst {data : Data} (h : data.toNode.Nested level) :
    (data.toValue level).1 = data.released := by
  match level, data with
  | 0, .item v => rfl
  | 0, .nodes feed => cases h
  | _ + 1, .item v => rfl
  | level + 1, .nodes feed =>
    obtain ⟨items, hitems, hnested⟩ := Node.nested_succ_iff.1 h
    cases hitems
    refine Feed.traverse_fst fun item hitem => ?_
    obtain ⟨v, hv⟩ := Node.nested_iff_toValueWith.1 (hnested item hitem)
    exact ⟨v, Node.itemToValue_eq_ok_iff.2 hv⟩

end Data

/-! ## Outcomes without a value -/

namespace Outcome

variable {α : Type} {o : Outcome α}

theorem valueless_eq_error_iff {e : Error} :
    o.valueless.result = .error e ↔ o.result = .error e := by
  unfold valueless
  cases o.result <;> simp [Except.map]

theorem valueless_eq_ok_iff {v : Option Value} :
    o.valueless.result = .ok v ↔ (∃ a, o.result = .ok a) ∧ v = none := by
  unfold valueless
  cases o.result <;> simp [Except.map, eq_comm]

end Outcome

namespace Dataset

/-- The ways to look at the data of a dataset, which goes on afterwards. -/
inductive Looks : {α : Type} → (Dataset → Outcome α) → Prop where
  | get : Looks Dataset.get
  | inspect {α : Type} (see : Value → α) : Looks fun d => d.inspect see
  | getWith (f : Value → Value) : Looks fun d => d.getWith f

variable {d incoming : Dataset} {matcher : Merge.Matcher} {options : Merge.Options}

/-! ## Merging -/

theorem merge_of_depth (h : d.level ≠ 1 ∨ incoming.level ≠ 1) :
    d.merge incoming matcher options =
      ⟨d, [], .error (.unsupportedMergeDepth d.level incoming.level)⟩ := if_pos h

theorem merge_of_error {e : Error} (hd : d.level = 1) (hi : incoming.level = 1)
    (hplan : Merge.Plan.make matcher options = .error e) :
    d.merge incoming matcher options = ⟨d, [], .error e⟩ := by
  unfold merge
  rw [if_neg (by simp [hd, hi]), hplan]

theorem merge_of_plan {plan : Merge.Plan} (hd : d.level = 1) (hi : incoming.level = 1)
    (hplan : Merge.Plan.make matcher options = .ok plan) :
    d.merge incoming matcher options =
      ⟨{ d with data := .nodes (Merge.feeds plan d.observer d.data.toFeed incoming.data.toFeed) },
        .log .debug ("merge with " ++ plan.describe) :: d.report .merge 1, .ok ()⟩ := by
  unfold merge
  rw [if_neg (by simp [hd, hi]), hplan]
  rfl

/-! ## Ungrouping -/

theorem ungroup_of_zero {f : Value → Value} (h : d.level = 0) :
    d.ungroup f = ⟨d, [], .error .ungroupBelowZero⟩ := by
  unfold ungroup
  rw [h]

theorem ungroup_of_one {f : Value → Value} (h : d.level = 1) :
    d.ungroup f = d.collapse.andThen fun _ d => applied { d with level := 0 } .ungroup 1 := by
  unfold ungroup
  rw [h]

theorem ungroup_of_succ {f : Value → Value} {level : Nat} (h : d.level = level + 2) :
    d.ungroup f =
      applied { d with data := d.data.mapBase (.flatten f) (level + 1), level := level + 1 }
        .ungroup (level + 2) := by
  unfold ungroup
  rw [h]

/-- Reducing folds and, if asked to, ungroups a dataset above level zero. -/
theorem reduceWith_eq (d : Dataset) (r : Reducer) (ungroupAfter : Bool) :
    d.reduceWith r ungroupAfter =
      if ungroupAfter && 0 < d.level then
        { (d.reduceKeep r).dataset.flatten with
          released := (d.reduceKeep r).released ++ (d.reduceKeep r).dataset.flatten.released }
      else d.reduceKeep r := by
  have hunfold : d.reduceWith r ungroupAfter =
      (d.reduceKeep r).andThen fun _ kept =>
        if ungroupAfter && 0 < kept.level then kept.flatten else ⟨kept, [], .ok ()⟩ := rfl
  have hlevel : (d.reduceKeep r).dataset.level = d.level := rfl
  have hok : (d.reduceKeep r).result = .ok () := rfl
  rw [hunfold]
  unfold Outcome.andThen
  rw [hok]
  dsimp only
  rw [hlevel]
  split_ifs
  · rfl
  · rw [List.append_nil, ← hok]

/-! ## One call -/

/-- The data of a dataset are nested to its level. -/
def Nested (d : Dataset) : Prop := d.data.toNode.Nested d.level

theorem collapse_of_single {v : Value} (hitems : d.data.toNode.items = [.record v]) :
    d.collapse = ⟨{ d with data := .item v }, d.data.released, .ok ()⟩ := by
  unfold collapse
  dsimp only
  rw [Data.items_toFeed, hitems]
  rfl

namespace Nested

theorem items_of_one (h : d.Nested) (hlevel : d.level = 1) :
    ∀ item ∈ d.data.toNode.items, item.Nested 0 := by
  unfold Nested at h
  rw [hlevel] at h
  obtain ⟨items, hitems, hnested⟩ := Node.nested_succ_iff.1 h
  rw [hitems]
  exact hnested

theorem collapse_of_length_ne (h : d.Nested) (hlevel : d.level = 1)
    (hcount : d.data.toNode.items.length ≠ 1) :
    d.collapse =
      ⟨{ d with data := .nodes (.ofList d.data.toNode.items) }, d.data.released,
        .error (.collapseNotSingle d.data.toNode.items.length)⟩ := by
  have hnested := h.items_of_one hlevel
  unfold collapse
  dsimp only
  rw [Data.items_toFeed]
  revert hnested hcount
  generalize d.data.toNode.items = items
  intro hcount hnested
  split
  · exact absurd rfl hcount
  · exact absurd rfl hcount
  · rfl

/-- A level-one dataset collapses to its record, if it holds a single one. -/
theorem collapse_cases (h : d.Nested) (hlevel : d.level = 1) :
    (∃ v, d.data.toNode.items = [.record v]) ∨ d.data.toNode.items.length ≠ 1 := by
  by_cases hcount : d.data.toNode.items.length = 1
  · obtain ⟨item, hitem⟩ := List.length_eq_one_iff.1 hcount
    obtain ⟨v, rfl⟩ := Node.nested_zero_iff.1 (h.items_of_one hlevel item (by simp [hitem]))
    exact .inl ⟨v, hitem⟩
  · exact .inr hcount

theorem chain (h : d.Nested) (operation : Operation) {s : Stage} (hs : s.Chained 0 0) :
    (d.chain operation s).dataset.Nested := by
  show (d.data.mapBase s d.level).toNode.Nested d.level
  rw [Data.toNode_mapBase hs]
  exact Node.Nested.mapBase hs h

theorem group (h : d.Nested) (keyOf : Value → Value) : (d.group keyOf).dataset.Nested := by
  show (d.data.mapBase (.group keyOf) d.level).toNode.Nested (d.level + 1)
  rw [Data.toNode_mapBase (.group keyOf)]
  exact Node.Nested.mapBase (.group keyOf) h

theorem ungroup (h : d.Nested) (f : Value → Value) : (d.ungroup f).dataset.Nested := by
  match hlevel : d.level with
  | 0 =>
    rw [ungroup_of_zero hlevel]
    exact h
  | 1 =>
    rw [ungroup_of_one hlevel]
    rcases h.collapse_cases hlevel with ⟨v, hitems⟩ | hcount
    · rw [collapse_of_single hitems]
      exact .record v
    · rw [h.collapse_of_length_ne hlevel hcount]
      show Node.Nested d.level (.group (Feed.ofList d.data.toNode.items).items)
      rw [hlevel, Feed.items_ofList]
      exact .group (h.items_of_one hlevel)
  | level + 2 =>
    rw [ungroup_of_succ hlevel]
    show (d.data.mapBase (.flatten f) (level + 1)).toNode.Nested (level + 1)
    rw [Data.toNode_mapBase (.flatten f)]
    refine Node.Nested.mapBase_succ (.flatten f) ?_
    unfold Nested at h
    rwa [hlevel] at h

theorem reduceWith (h : d.Nested) (r : Reducer) (ungroupAfter : Bool) :
    (d.reduceWith r ungroupAfter).dataset.Nested := by
  have hkeep : (d.reduceKeep r).dataset.Nested := h.chain .reduce (.reduce r)
  rw [reduceWith_eq]
  split_ifs
  · exact hkeep.ungroup _
  · exact hkeep

theorem merge (h : d.Nested) (incoming : Dataset) (matcher : Merge.Matcher)
    (options : Merge.Options) : (d.merge incoming matcher options).dataset.Nested := by
  by_cases hdepth : d.level ≠ 1 ∨ incoming.level ≠ 1
  · rw [merge_of_depth hdepth]
    exact h
  · obtain ⟨hd, hi⟩ : d.level = 1 ∧ incoming.level = 1 := by simpa [not_or] using hdepth
    cases hplan : Merge.Plan.make matcher options with
    | error e =>
      rw [merge_of_error hd hi hplan]
      exact h
    | ok plan =>
      rw [merge_of_plan hd hi hplan]
      show Node.Nested d.level
        (.group (Merge.feeds plan _ d.data.toFeed incoming.data.toFeed).items)
      rw [hd, Merge.items_feeds]
      exact .group (Node.nested_map_record _)

/-- A value is always there to get, and the data stay what they are. -/
theorem get_eq (h : d.Nested) :
    ∃ v, d.data.toNode.toValue d.level = .ok v ∧
      d.get =
        ⟨{ d with data := .ofNode d.data.toNode },
          d.data.released ++ Emission.announce d.observer (.materialized d.level), .ok v⟩ := by
  obtain ⟨v, hv⟩ := Node.nested_iff_toValueWith.1 h
  refine ⟨v, hv, ?_⟩
  have hvalue : (d.data.toValue d.level).2 = .ok v := (Data.toValue_snd _ _).trans hv
  have hnode : Node.ofValue? d.level v = .ok d.data.toNode := Node.ofValue?_eq_ok_iff.2 hv
  have hread : (do let v ← (.ok v : Except Error Value); return (v, ← Node.ofValue? d.level v)) =
      .ok (v, d.data.toNode) := bind_eq_ok_iff.2 ⟨v, rfl, bind_eq_ok_iff.2 ⟨_, hnode, rfl⟩⟩
  unfold get
  dsimp only
  rw [hvalue, Data.toValue_fst h, hread]

/-- What one gets is the data written as nested arrays. -/
theorem result_get (h : d.Nested) : d.get.result = d.data.toNode.toValue d.level := by
  obtain ⟨v, hv, hget⟩ := h.get_eq
  rw [hget, hv]

/-- A function is handed what one gets. -/
theorem inspect_eq (h : d.Nested) {α : Type} (see : Value → α) :
    ∃ v, d.get.result = .ok v ∧
      d.inspect see = ⟨d.get.dataset, d.get.released, .ok (see v)⟩ := by
  obtain ⟨v, -, hget⟩ := h.get_eq
  refine ⟨v, by rw [hget], ?_⟩
  unfold inspect Outcome.andThen
  rw [hget]
  dsimp only
  rw [List.append_nil]

theorem getWith_eq (h : d.Nested) (f : Value → Value) :
    ∃ v, d.data.toNode.toValueWith f d.level = .ok v ∧
      d.getWith f = ⟨d.get.dataset, d.get.released, .ok v⟩ := by
  obtain ⟨v, hv, hget⟩ := h.get_eq
  obtain ⟨w, hw⟩ := Node.nested_iff_toValueWith.1 h
  have hnode : Node.ofValue? d.level v = .ok d.data.toNode := Node.ofValue?_eq_ok_iff.2 hv
  have hresult : (do Node.toValueWith f d.level (← Node.ofValue? d.level v)) = .ok w :=
    bind_eq_ok_iff.2 ⟨_, hnode, hw⟩
  refine ⟨w, hw, ?_⟩
  unfold getWith Outcome.andThen
  rw [hget]
  dsimp only
  rw [hresult, List.append_nil]

theorem intoValue_eq (h : d.Nested) :
    ∃ v, d.data.toNode.toValue d.level = .ok v ∧
      d.intoValue =
        (d.data.released ++ Emission.announce d.observer (.materialized d.level), .ok v) := by
  obtain ⟨v, hv⟩ := Node.nested_iff_toValueWith.1 h
  have hvalue : (d.data.toValue d.level).2 = .ok v := (Data.toValue_snd _ _).trans hv
  refine ⟨v, hv, ?_⟩
  unfold intoValue
  dsimp only
  rw [hvalue, Data.toValue_fst h]

theorem get (h : d.Nested) : d.get.dataset.Nested := by
  obtain ⟨v, -, hget⟩ := h.get_eq
  rw [hget]
  show Node.Nested d.level (Data.ofNode d.data.toNode).toNode
  rw [Data.toNode_ofNode]
  exact h

/-- Every look does to the dataset what getting the value does, and succeeds. -/
theorem look_eq (h : d.Nested) {α : Type} {way : Dataset → Outcome α} (hway : Looks way) :
    ∃ a, way d = ⟨d.get.dataset, d.get.released, .ok a⟩ := by
  cases hway with
  | get =>
    obtain ⟨v, -, hget⟩ := h.get_eq
    exact ⟨v, by rw [hget]⟩
  | inspect see =>
    obtain ⟨v, -, hinspect⟩ := h.inspect_eq see
    exact ⟨see v, hinspect⟩
  | getWith f =>
    obtain ⟨v, -, hgetWith⟩ := h.getWith_eq f
    exact ⟨v, hgetWith⟩

theorem look (h : d.Nested) {α : Type} {way : Dataset → Outcome α} (hway : Looks way) :
    (way d).dataset.Nested := by
  obtain ⟨a, heq⟩ := h.look_eq hway
  rw [heq]
  exact h.get

/-- Every call keeps the data nested to the level, also one that fails. -/
theorem answer (h : d.Nested) (c : Call) : (d.answer c).dataset.Nested := by
  cases c with
  | map f => exact h.chain .map (.map f)
  | filter p => exact h.chain .filter (.filter p)
  | sort sorting => exact h.chain .sort (.sort sorting)
  | group keyOf => exact h.group keyOf
  | distinct keyOf => exact h.chain .distinct (.distinct keyOf)
  | ungroup f => exact h.ungroup f
  | reduceKeep r => exact h.chain .reduce (.reduce r)
  | reduceWith r ungroupAfter => exact h.reduceWith r ungroupAfter
  | merge incoming matcher options => exact h.merge incoming matcher options
  | observe observer => exact h
  | get => exact h.look .get
  | inspect see => exact h.look (.inspect see)
  | getWith f => exact h.look (.getWith f)

theorem run (h : d.Nested) (calls : List Call) : (d.run calls).Nested := by
  induction calls generalizing d with
  | nil => exact h
  | cons c calls ih => exact ih (h.answer c)

end Nested

end Dataset

end RecordFlow
