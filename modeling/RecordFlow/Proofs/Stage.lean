import RecordFlow.Proofs.Buckets
import RecordFlow.Proofs.Feed
import RecordFlow.Proofs.Node
import RecordFlow.Stage

/-!
# Stages on nested data

A stage that a call chains (`Stage.Chained`) makes items out of items, whatever pulling them sets
free, and changes how deep they are nested by a fixed amount. Applied below some level, it changes
the level of the whole data by that amount (`Node.Nested.mapBase`).
-/

namespace RecordFlow

/-! ## Sorting -/

theorem insertReversed_perm {α : Type} (before : α → α → Bool) (x : α) (ys : List α) :
    (insertReversed before x ys).Perm (x :: ys) := by
  induction ys with
  | nil => exact .refl _
  | cons y ys ih =>
    unfold insertReversed
    split_ifs
    · exact (ih.cons y).trans (.swap x y ys)
    · exact .refl _

theorem insertionSort_perm {α : Type} (before : α → α → Bool) (xs : List α) :
    (insertionSort before xs).Perm xs := by
  have hfold : ∀ ys zs : List α,
      (ys.foldl (fun sorted x => insertReversed before x sorted) zs).Perm (ys ++ zs) := by
    intro ys
    induction ys with
    | nil => exact fun zs => .refl _
    | cons y ys ih =>
      intro zs
      have hinsert := (insertReversed_perm before y zs).append_left ys
      exact (ih _).trans (hinsert.trans List.perm_middle)
  unfold insertionSort
  exact (List.reverse_perm _).trans (by simpa using hfold xs [])

namespace Stage

open Node (Nested)

/-- The stages that calls chain, with the levels of the items that they take and make. -/
inductive Chained : Stage → Nat → Nat → Prop where
  | map (f : Value → Value) : Chained (.map f) 0 0
  | filter (p : Value → Bool) : Chained (.filter p) 0 0
  | sort (sorting : Sorting) : Chained (.sort sorting) 0 0
  | group (keyOf : Value → Value) : Chained (.group keyOf) 0 1
  | distinct (keyOf : Value → Value) : Chained (.distinct keyOf) 0 0
  | reduce (r : Reducer) : Chained (.reduce r) 0 0
  | flatten (f : Value → Value) : Chained (.flatten f) 1 0

namespace Chained

variable {s : Stage} {j k : Nat}

/-- The items that a stage makes depend on nothing but items. -/
theorem items_eq (h : Chained s j k) (feed : Feed Node) : (s feed).items = s.onList feed.items := by
  cases h <;>
    simp [onList, Stage.map, Stage.filter, Stage.sort, Stage.group, Stage.distinct, Stage.reduce,
      Stage.flatten]

/-- A stage is lazy: it pulls the feed only when what it makes is pulled. -/
theorem reads (h : Chained s j k) (feed : Feed Node) : (s feed).Reads feed := by
  cases h with
  | map f => exact Feed.reads_map _ feed
  | filter p => exact Feed.reads_filter _ feed
  | flatten f => exact Feed.reads_flatMap _ feed
  | _ => exact Feed.reads_gather _ feed

theorem onList_group (keyOf : Value → Value) (nodes : List Node) :
    (Stage.group keyOf).onList nodes =
      (keysOf (nodeKey keyOf) nodes).map fun k => .group (nodes.filter (nodeKey keyOf · = k)) := by
  simp [onList, Stage.group, Buckets.toList_ofList, kept]

theorem onList_distinct (keyOf : Value → Value) (nodes : List Node) :
    (Stage.distinct keyOf).onList nodes = firsts (nodeKey keyOf) nodes := by
  have hbuckets : (Stage.distinct keyOf).onList nodes =
      (keysOf (nodeKey keyOf) nodes).filterMap fun k =>
        ((firsts (nodeKey keyOf) nodes).filter (nodeKey keyOf · = k)).head? := by
    simp only [onList, Stage.distinct, Feed.items_gather, Feed.items_ofList,
      Buckets.toList_ofList, kept, if_true, List.filterMap_map]
    rfl
  rw [hbuckets, filterMap_head?_firsts]

/-- The items that a stage makes of items nested to the level it takes are nested to the level it
makes. -/
theorem nested_onList (h : Chained s j k) {nodes : List Node} (hn : ∀ node ∈ nodes, Nested j node) :
    ∀ node ∈ s.onList nodes, Nested k node := by
  intro node hnode
  cases h with
  | map f =>
    simp only [onList, Stage.map, Feed.items_map, Feed.items_ofList, List.mem_map] at hnode
    obtain ⟨item, hitem, rfl⟩ := hnode
    obtain ⟨v, rfl⟩ := Node.nested_zero_iff.1 (hn item hitem)
    exact .record (f v)
  | filter p =>
    simp only [onList, Stage.filter, Feed.items_filter, Feed.items_ofList] at hnode
    exact hn node (List.mem_filter.1 hnode).1
  | sort sorting =>
    simp only [onList, Stage.sort, Feed.items_gather, Feed.items_ofList] at hnode
    exact hn node ((insertionSort_perm _ _).mem_iff.1 hnode)
  | group keyOf =>
    rw [onList_group, List.mem_map] at hnode
    obtain ⟨key, -, rfl⟩ := hnode
    exact .group fun item hitem => hn item (List.mem_filter.1 hitem).1
  | distinct keyOf =>
    rw [onList_distinct] at hnode
    exact hn node ((firsts_sublist _ nodes).subset hnode)
  | reduce r =>
    simp only [onList, Stage.reduce, Feed.items_gather, List.mem_singleton] at hnode
    subst hnode
    exact .record _
  | flatten f =>
    simp only [onList, Stage.flatten, Feed.items_flatMap, Feed.items_ofList, List.mem_flatMap,
      List.mem_map] at hnode
    obtain ⟨group, hgroup, item, hitem, rfl⟩ := hnode
    obtain ⟨items, rfl, hitems⟩ := Node.nested_succ_iff.1 (hn group hgroup)
    obtain ⟨v, rfl⟩ := Node.nested_zero_iff.1 (hitems item hitem)
    exact .record (f v)

/-- A single record, which a stage may drop, gives an item of the level that the stage makes. -/
theorem nested_onSingle (h : Chained s 0 k) (v : Value) : Nested k (s.onSingle (.record v)) := by
  have hitems : ∀ node ∈ s.onList [.record v], Nested k node :=
    h.nested_onList (Node.nested_map_record [v])
  unfold onSingle
  cases hhead : (s.onList [.record v]).head? with
  | some node => exact hitems node (List.mem_of_mem_head? hhead)
  | none =>
    cases h with
    | group keyOf =>
      rw [onList_group, keysOf_cons] at hhead
      exact absurd hhead (by simp)
    | _ => exact .record .null

end Chained

end Stage

/-! ## Below a level -/

namespace Node

/-- The records of every base group of data nested to a level. -/
def baseGroups : Nat → Node → List (List Value)
  | 0, node => [node.items.filterMap record?]
  | _ + 1, .record _ => []
  | 1, .group items => [items.filterMap record?]
  | level + 2, .group items => items.flatMap (baseGroups (level + 1))

variable {s : Stage} {j k : Nat} {node : Node}

/-- A stage under some levels of groups changes the level by what it changes that of base items. -/
theorem Nested.mapBase_succ (hs : s.Chained j k) {level : Nat} (h : Nested (level + 1 + j) node) :
    Nested (level + 1 + k) (node.mapBase s (level + 1)) := by
  induction level generalizing node with
  | zero =>
    rw [Nat.zero_add, Nat.add_comm] at h
    obtain ⟨items, rfl, hitems⟩ := nested_succ_iff.1 h
    rw [Nat.zero_add, Nat.add_comm]
    exact .group (hs.nested_onList hitems)
  | succ level ih =>
    rw [Nat.add_right_comm] at h
    obtain ⟨items, rfl, hitems⟩ := nested_succ_iff.1 h
    rw [Nat.add_right_comm]
    refine .group fun node hnode => ?_
    obtain ⟨item, hitem, rfl⟩ := List.mem_map.1 hnode
    exact ih (hitems item hitem)

theorem Nested.mapBase (hs : s.Chained 0 k) {level : Nat} (h : Nested level node) :
    Nested (level + k) (node.mapBase s level) := by
  cases level with
  | zero =>
    obtain ⟨v, rfl⟩ := nested_zero_iff.1 h
    rw [Nat.zero_add]
    exact hs.nested_onSingle v
  | succ level => exact Nested.mapBase_succ hs h

end Node

end RecordFlow
