import RecordFlow.Proofs.Dataset.Reachable

/-!
# Groups are processed in isolation

The outer groups of a dataset are datasets of their own, one level lower (`Dataset.ConsistsOf`). A
call that leaves the outermost level alone (`Call.Inner`) does to the whole what it does to each of
them by itself, however deep it acts, and so does a list of such calls
(`Dataset.groups_isolated`).
-/

namespace RecordFlow

/-- The calls that act inside the outer groups of a dataset of a level. Ungrouping does so as long
as there are groups inside the outer ones. -/
inductive Call.Inner (level : Nat) : Call → Prop where
  | map (f : Value → Value) : Inner level (.map f)
  | filter (p : Value → Bool) : Inner level (.filter p)
  | sort (sorting : Sorting) : Inner level (.sort sorting)
  | group (keyOf : Value → Value) : Inner level (.group keyOf)
  | distinct (keyOf : Value → Value) : Inner level (.distinct keyOf)
  | reduceKeep (r : Reducer) : Inner level (.reduceKeep r)
  | ungroup (f : Value → Value) (h : 3 ≤ level) : Inner level (.ungroup f)
  | reduceWith (r : Reducer) (ungroupAfter : Bool) (h : ungroupAfter = true → 3 ≤ level) :
    Inner level (.reduceWith r ungroupAfter)

namespace Dataset

/-- Something holds of every call of a list, on the dataset on which it is made. -/
def Throughout (holds : Dataset → Call → Prop) (d : Dataset) : List Call → Prop
  | [] => True
  | c :: calls => holds d c ∧ (d.answer c).dataset.Throughout holds calls

/-- A dataset does what a call asks for. -/
def Accepts (d : Dataset) (c : Call) : Prop := (d.answer c).result = .ok none

/-- The outer groups of a dataset are what some datasets hold, which are one level lower. -/
structure ConsistsOf (d : Dataset) (parts : List Dataset) : Prop where
  node : d.data.toNode = .group (parts.map fun part => part.data.toNode)
  level : ∀ part ∈ parts, d.level = part.level + 1
  deep : 2 ≤ d.level

variable {d d' : Dataset} {parts : List Dataset} {c : Call} {calls : List Call}

namespace ConsistsOf

/-! ## One call -/

/-- A stage some levels down in the whole is the stage one level less down in each part. -/
theorem step (h : d.ConsistsOf parts) {s : Stage} {j k : Nat} (depth : Nat) (hs : s.Chained j k)
    {next : Dataset → Dataset} (hdata : d'.data = d.data.mapBase s (depth + 2))
    (hnext : ∀ part ∈ parts, (next part).data = part.data.mapBase s (depth + 1) ∧
      d'.level = (next part).level + 1)
    (hdeep : 2 ≤ d'.level) : d'.ConsistsOf (parts.map next) where
  node := by
    have hparts : (d.data.mapBase s (depth + 2)).toNode =
        .group ((parts.map fun part => part.data.toNode).map (Node.mapBase s (depth + 1))) := by
      rw [Data.toNode_mapBase hs, h.node]
      rfl
    rw [hdata, hparts, List.map_map, List.map_map]
    congr 1
    refine List.map_congr_left fun part hpart => ?_
    show part.data.toNode.mapBase s (depth + 1) = (next part).data.toNode
    rw [(hnext part hpart).1, Data.toNode_mapBase hs]
  level := by
    intro part' hpart'
    obtain ⟨part, hpart, rfl⟩ := List.mem_map.1 hpart'
    exact (hnext part hpart).2
  deep := hdeep

/-- The levels of the whole and of the parts, counted from the lowest that they can be. -/
theorem levels (h : d.ConsistsOf parts) :
    ∃ depth, d.level = depth + 2 ∧ ∀ part ∈ parts, part.level = depth + 1 := by
  obtain ⟨depth, hdepth⟩ := Nat.exists_eq_add_of_le' h.deep
  refine ⟨depth, hdepth, fun part hpart => ?_⟩
  have hlevel := h.level part hpart
  omega

theorem chain (h : d.ConsistsOf parts) (operation : Operation) {s : Stage} (hs : s.Chained 0 0) :
    (d.chain operation s).dataset.ConsistsOf
      (parts.map fun part => (part.chain operation s).dataset) := by
  obtain ⟨depth, hd, hparts⟩ := h.levels
  refine h.step depth hs ?_ (fun part hpart => ⟨?_, h.level part hpart⟩) h.deep
  · rw [← hd]
    rfl
  · rw [← hparts part hpart]
    rfl

theorem group (h : d.ConsistsOf parts) (keyOf : Value → Value) :
    (d.group keyOf).dataset.ConsistsOf (parts.map fun part => (part.group keyOf).dataset) := by
  obtain ⟨depth, hd, hparts⟩ := h.levels
  refine h.step depth (.group keyOf) ?_ (fun part hpart => ⟨?_, ?_⟩)
    (Nat.le_succ_of_le h.deep)
  · rw [← hd]
    rfl
  · rw [← hparts part hpart]
    rfl
  · exact congrArg (· + 1) (h.level part hpart)

theorem ungroup (h : d.ConsistsOf parts) (f : Value → Value) (hlevel : 3 ≤ d.level) :
    (d.ungroup f).dataset.ConsistsOf (parts.map fun part => (part.ungroup f).dataset) := by
  obtain ⟨depth, hd⟩ := Nat.exists_eq_add_of_le' hlevel
  have hparts : ∀ part ∈ parts, part.level = depth + 2 := by
    intro part hpart
    have hpart := h.level part hpart
    omega
  rw [ungroup_of_succ hd]
  refine h.step depth (.flatten f) rfl (fun part hpart => ?_) (Nat.le_add_left 2 depth)
  rw [ungroup_of_succ (hparts part hpart)]
  exact ⟨rfl, rfl⟩

theorem reduceWith (h : d.ConsistsOf parts) (r : Reducer) (ungroupAfter : Bool)
    (hlevel : ungroupAfter = true → 3 ≤ d.level) :
    (d.reduceWith r ungroupAfter).dataset.ConsistsOf
      (parts.map fun part => (part.reduceWith r ungroupAfter).dataset) := by
  -- folding stays inside at any level, only the ungrouping after it needs a level to spare
  have hkeep : (d.reduceKeep r).dataset.ConsistsOf
      (parts.map fun part => (part.reduceKeep r).dataset) := h.chain .reduce (.reduce r)
  cases ungroupAfter with
  | false =>
    simp only [reduceWith_eq, Bool.false_and, Bool.false_eq_true, if_false]
    exact hkeep
  | true =>
    have hflatten : (d.reduceKeep r).dataset.flatten.dataset.ConsistsOf _ :=
      hkeep.ungroup (fun v => v) (hlevel rfl)
    have hd : (d.reduceWith r true).dataset = (d.reduceKeep r).dataset.flatten.dataset := by
      rw [reduceWith_eq, if_pos (by simpa using Nat.lt_of_lt_of_le (by decide) h.deep)]
    have hparts : ∀ part ∈ parts, (part.reduceWith r true).dataset =
        (part.reduceKeep r).dataset.flatten.dataset := by
      intro part hpart
      have hpos : 0 < part.level := by
        have hpart := h.level part hpart
        have hdeep := h.deep
        omega
      rw [reduceWith_eq, if_pos (by simpa using hpos)]
    rw [hd, List.map_congr_left hparts]
    rw [List.map_map] at hflatten
    exact hflatten

/-- A call that acts inside the outer groups is made on each of them. -/
theorem answer (h : d.ConsistsOf parts) (hc : c.Inner d.level) :
    (d.answer c).dataset.ConsistsOf (parts.map fun part => (part.answer c).dataset) := by
  cases hc with
  | map f => exact h.chain .map (.map f)
  | filter p => exact h.chain .filter (.filter p)
  | sort sorting => exact h.chain .sort (.sort sorting)
  | group keyOf => exact h.group keyOf
  | distinct keyOf => exact h.chain .distinct (.distinct keyOf)
  | reduceKeep r => exact h.chain .reduce (.reduce r)
  | ungroup f hlevel => exact h.ungroup f hlevel
  | reduceWith r ungroupAfter hlevel => exact h.reduceWith r ungroupAfter hlevel

end ConsistsOf

/-- Calls that act inside the outer groups are accepted, by the whole and one level lower. -/
theorem Nested.accepts (h : d.Nested) {level : Nat} (hc : c.Inner level)
    (hlevel : level ≤ d.level + 1) : d.Accepts c := by
  unfold Accepts
  cases hc with
  | ungroup f hdeep =>
    obtain ⟨depth, hd⟩ := Nat.exists_eq_add_of_le' (show 2 ≤ d.level by omega)
    show (d.ungroup f).valueless.result = .ok none
    rw [ungroup_of_succ hd]
    rfl
  | reduceWith r ungroupAfter hdeep =>
    have hok := h.reduceWith_result r ungroupAfter
    exact Outcome.valueless_eq_ok_iff.2 ⟨⟨(), hok⟩, rfl⟩
  | _ => rfl

/-! ## Calls in a row -/

namespace ConsistsOf

theorem nested_part (h : d.ConsistsOf parts) (hd : d.Nested) : ∀ part ∈ parts, part.Nested := by
  intro part hpart
  unfold Dataset.Nested at hd ⊢
  rw [h.node, h.level part hpart] at hd
  obtain ⟨items, hitems, hnested⟩ := Node.nested_succ_iff.1 hd
  cases hitems
  exact hnested _ (List.mem_map_of_mem hpart)

/-- Calls that act inside the outer groups are made on each of them, and every one is accepted. -/
theorem run (h : d.ConsistsOf parts) (hd : d.Nested)
    (hcalls : d.Throughout (fun d c => c.Inner d.level) calls) :
    (d.run calls).ConsistsOf (parts.map fun part => part.run calls) ∧
      d.Throughout Accepts calls ∧ ∀ part ∈ parts, part.Throughout Accepts calls := by
  induction calls generalizing d parts with
  | nil =>
    refine ⟨?_, trivial, fun _ _ => trivial⟩
    show d.ConsistsOf (parts.map id)
    rw [List.map_id]
    exact h
  | cons c calls ih =>
    obtain ⟨hc, hcalls⟩ := hcalls
    obtain ⟨hrun, haccepted, hparts⟩ := ih (h.answer hc) (hd.answer c) hcalls
    rw [List.map_map] at hrun
    refine ⟨hrun, ⟨hd.accepts hc (Nat.le_succ _), haccepted⟩, fun part hpart => ⟨?_, ?_⟩⟩
    · exact (h.nested_part hd part hpart).accepts hc (h.level part hpart).le
    · exact hparts _ (List.mem_map_of_mem hpart)

/-- The value of the whole is the array of those of its parts. -/
theorem get (h : d.ConsistsOf parts) (hd : d.Nested) :
    ∃ ws, d.get.result = .ok (.array ws) ∧
      List.Forall₂ (fun part w => part.get.result = .ok w) parts ws := by
  obtain ⟨depth, hlevel, hparts⟩ := h.levels
  obtain ⟨v, hv⟩ := Node.nested_iff_toValueWith.1 hd
  have hget : d.get.result = .ok v := hd.result_get.trans hv
  rw [h.node, hlevel] at hv
  obtain ⟨items, ws, hitems, rfl, hws⟩ := Node.toValueWith_succ_eq_ok_iff.1 hv
  cases hitems
  refine ⟨ws, hget, ?_⟩
  have hget : ∀ part ∈ parts, part.get.result = part.data.toNode.toValue (depth + 1) := by
    intro part hpart
    rw [(h.nested_part hd part hpart).result_get, hparts part hpart]
  rw [List.forall₂_map_left_iff] at hws
  exact ((List.forall₂_and_left _ _).2 ⟨hget, hws⟩).imp fun part w h => h.1.trans h.2

end ConsistsOf

/-! ## Nested arrays -/

theorem forall₂_trans {α β γ : Type} {R : α → β → Prop} {S : β → γ → Prop} {T : α → γ → Prop}
    {xs : List α} {ys : List β} {zs : List γ} (hxs : List.Forall₂ R xs ys)
    (hys : List.Forall₂ S ys zs) (h : ∀ {x y z}, R x y → S y z → T x z) :
    List.Forall₂ T xs zs := by
  induction hxs generalizing zs with
  | nil =>
    cases hys
    exact .nil
  | cons hx _ ih =>
    cases hys with
    | cons hy hys => exact .cons (h hx hy) (ih hys)

theorem nested_ofNested {v : Value} {level : Nat} (hd : ofNested v level = .ok d) : d.Nested := by
  obtain ⟨node, hnode, ⟨⟩⟩ := bind_eq_ok_iff.1 hd
  show (Data.ofNode node).toNode.Nested level
  rw [Data.toNode_ofNode]
  exact Node.nested_of_ofValue? hnode

/-- Data read from an array consist of those read from its items one level lower. -/
theorem consistsOf_ofNested {vs : List Value} {level : Nat} (hlevel : 1 ≤ level)
    (hd : ofNested (.array vs) (level + 1) = .ok d) :
    ∃ parts, d.ConsistsOf parts ∧
      List.Forall₂ (fun v part => ofNested v level = .ok part) vs parts := by
  obtain ⟨node, hnode, ⟨⟩⟩ := bind_eq_ok_iff.1 hd
  obtain ⟨items, vs', rfl, hvs, hitems⟩ := Node.ofValue?_succ_eq_ok_iff.1 hnode
  cases hvs
  refine ⟨items.map fun item => ⟨.ofNode item, level, none⟩, ⟨?_, ?_, Nat.succ_le_succ hlevel⟩, ?_⟩
  · simp only [List.map_map, Function.comp_def, Data.toNode_ofNode, List.map_id']
  · intro part hpart
    obtain ⟨item, -, rfl⟩ := List.mem_map.1 hpart
    rfl
  · rw [List.forall₂_map_right_iff]
    refine hitems.flip.imp fun v item hitem => ?_
    exact bind_eq_ok_iff.2 ⟨item, hitem, rfl⟩

/-- **Groups are processed in isolation.** Calls that leave the outermost level alone are accepted,
and the value they end in is the array of those they end in on each outer group by itself, one level
lower. -/
theorem groups_isolated {vs : List Value} {level : Nat} (hlevel : 1 ≤ level)
    (hd : ofNested (.array vs) (level + 1) = .ok d)
    (hcalls : d.Throughout (fun d c => c.Inner d.level) calls) :
    d.Throughout Accepts calls ∧
      ∃ ws, (d.run calls).get.result = .ok (.array ws) ∧
        List.Forall₂ (fun v w => ∃ part, ofNested v level = .ok part ∧
          part.Throughout Accepts calls ∧ (part.run calls).get.result = .ok w ∧
          (d.run calls).level = (part.run calls).level + 1) vs ws := by
  have hnested := nested_ofNested hd
  obtain ⟨parts, hparts, hvs⟩ := consistsOf_ofNested hlevel hd
  obtain ⟨hrun, haccepted, hpartsAccepted⟩ := hparts.run hnested hcalls
  obtain ⟨ws, hget, hws⟩ := hrun.get (hnested.run calls)
  refine ⟨haccepted, ws, hget, ?_⟩
  rw [List.forall₂_map_left_iff] at hws
  have hall := (List.forall₂_and_left _ _).2
    ⟨fun part hpart => And.intro (hpartsAccepted part hpart)
      (hrun.level _ (List.mem_map_of_mem hpart)), hws⟩
  exact forall₂_trans hvs hall fun hv h => ⟨_, hv, h.1.1, h.2, h.1.2⟩

/-- Two groups, one of them empty, are grouped further, and the inner groups are folded to arrays.
The groups of the value are what the same calls make of each group by itself. -/
theorem groups_isolated_of_inner_groups :
    let v := Value.array [.bool true, .null, .bool true]
    let calls : List Call := [.group id, .reduce (.fold .array), .filter fun _ => true]
    ∃ d, ofNested (.array [v, .array []]) 2 = .ok d ∧
      d.Throughout (fun d c => c.Inner d.level) calls ∧
      ∃ w, (∃ part, ofNested v 1 = .ok part ∧ (part.run calls).get.result = .ok w) ∧
        (d.run calls).get.result = .ok (.array [w, .array []]) := by
  intro v calls
  obtain ⟨d, hd⟩ : ∃ d, ofNested (.array [v, .array []]) 2 = .ok d := ⟨_, rfl⟩
  have hcalls : d.Throughout (fun d c => c.Inner d.level) calls := by
    cases hd
    exact ⟨.group _, .reduceWith _ _ fun _ => Nat.le_refl 3, .filter _, trivial⟩
  obtain ⟨-, ws, hget, hws⟩ := groups_isolated (Nat.le_refl 1) hd hcalls
  rcases hws with _ | ⟨⟨part, hpart, -, hw, -⟩, _ | ⟨⟨empty, hempty, -, hnil, -⟩, _ | _⟩⟩
  cases hempty
  cases hnil
  exact ⟨d, hd, hcalls, _, ⟨part, hpart, hw⟩, hget⟩

end Dataset

end RecordFlow
