import RecordFlow.Proofs.Dataset.Nesting

/-!
# Lazy and eager traversal

A function can be applied to the records of nested data in two ways: as a stage, before the data are
written as arrays, or while they are written. The first leaves misplaced nodes alone and the second
stops at one, and yet both end in the same value or the same error, that of the first misplaced node
(`Node.traversals_agree`).
-/

namespace RecordFlow

namespace Stage

theorem onList_map (f : Value → Value) (nodes : List Node) :
    (Stage.map f).onList nodes = nodes.map (Node.mapRecord f) := by
  simp [onList, Stage.map]

theorem onSingle_map (f : Value → Value) (node : Node) :
    (Stage.map f).onSingle node = node.mapRecord f := by
  unfold onSingle
  rw [onList_map]
  rfl

end Stage

namespace Node

variable {f : Value → Value} {level : Nat} {node : Node} {fault : ShapeFault} {e : Error}

/-! ## Transforming before writing -/

/-- Items that are written alike make groups that are. -/
theorem toValueWith_group_map {g : Value → Value} {change : Node → Node}
    (h : ∀ item, itemToValue g (toValueWith g level) level (change item) =
      itemToValue f (toValueWith f level) level item) (items : List Node) :
    toValueWith g (level + 1) (.group (items.map change)) =
      toValueWith f (level + 1) (.group items) := by
  rw [toValueWith, toValueWith, List.mapM_map]
  congr 2
  funext item
  exact h item

theorem toValue_mapBase_map (f : Value → Value) (level : Nat) (node : Node) :
    (node.mapBase (.map f) level).toValue level = node.toValueWith f level := by
  unfold toValue
  induction level generalizing node with
  | zero =>
    show toValueWith (fun v => v) 0 ((Stage.map f).onSingle node) = _
    rw [Stage.onSingle_map]
    cases node <;> rfl
  | succ level ih =>
    cases node with
    | record v => cases level <;> rfl
    | group items =>
      cases level with
      | zero =>
        show toValueWith (fun v => v) 1 (.group ((Stage.map f).onList items)) = _
        rw [Stage.onList_map]
        refine toValueWith_group_map (fun item => ?_) items
        cases item <;> rfl
      | succ level =>
        refine toValueWith_group_map (fun item => ?_) items
        exact ih item

/-! ## The first misplaced node -/

/-- The first node that is misplaced in data that should be nested to a level, in the order in which
the data are read, and how. -/
inductive FirstFault : Nat → Node → ShapeFault → Prop where
  | item (items : List Node) : FirstFault 0 (.group items) (.unexpected .item .group 0)
  | group (level : Nat) (v : Value) :
    FirstFault (level + 1) (.record v) (.unexpected .group .record (level + 1))
  | baseRecord {before inner after : List Node} (hbefore : ∀ item ∈ before, Nested 0 item) :
    FirstFault 1 (.group (before ++ .group inner :: after)) (.unexpected .baseRecord .group 1)
  | inside {level : Nat} {before after : List Node} {item : Node} {fault : ShapeFault}
    (hbefore : ∀ item ∈ before, Nested (level + 1) item)
    (hitem : FirstFault (level + 1) item fault) :
    FirstFault (level + 2) (.group (before ++ item :: after)) fault

theorem toValueWith_group_eq_error_iff {items : List Node} :
    toValueWith f (level + 1) (.group items) = .error e ↔
      ∃ before item after, items = before ++ item :: after ∧ (∀ item ∈ before, Nested level item) ∧
        itemToValue f (toValueWith f level) level item = .error e := by
  have hmap : toValueWith f (level + 1) (.group items) = .error e ↔
      items.mapM (itemToValue f (toValueWith f level) level) = .error e := by
    rw [toValueWith]
    exact bind_pure_eq_error_iff
  rw [hmap, mapM_eq_error_iff]
  simp only [itemToValue_eq_ok_iff, ← nested_iff_toValueWith]

/-- Data cannot be written exactly when a node is misplaced, and the error is that of the first. -/
theorem toValueWith_eq_error_iff :
    toValueWith f level node = .error e ↔
      ∃ fault, FirstFault level node fault ∧ e = .shapeMismatch fault := by
  induction level generalizing node with
  | zero =>
    cases node with
    | record v =>
      refine ⟨nofun, ?_⟩
      rintro ⟨fault, ⟨⟩, -⟩
    | group items =>
      constructor
      · rintro ⟨⟩
        exact ⟨_, .item items, rfl⟩
      · rintro ⟨fault, ⟨⟩, rfl⟩
        rfl
  | succ level ih =>
    cases node with
    | record v =>
      constructor
      · rintro ⟨⟩
        exact ⟨_, .group level v, rfl⟩
      · rintro ⟨fault, ⟨⟩, rfl⟩
        rfl
    | group items =>
      rw [toValueWith_group_eq_error_iff]
      cases level with
      | zero =>
        constructor
        · rintro ⟨before, item, after, rfl, hbefore, hitem⟩
          cases item with
          | record v => cases hitem
          | group inner =>
            cases hitem
            exact ⟨_, .baseRecord hbefore, rfl⟩
        · rintro ⟨fault, hfault, rfl⟩
          cases hfault with
          | baseRecord hbefore => exact ⟨_, _, _, rfl, hbefore, rfl⟩
      | succ level =>
        constructor
        · rintro ⟨before, item, after, rfl, hbefore, hitem⟩
          obtain ⟨fault, hfault, rfl⟩ := ih.1 hitem
          exact ⟨fault, .inside hbefore hfault, rfl⟩
        · rintro ⟨fault, hfault, rfl⟩
          cases hfault with
          | inside hbefore hitem => exact ⟨_, _, _, rfl, hbefore, ih.2 ⟨fault, hitem, rfl⟩⟩

/-- **Lazy and eager traversal agree** on every tree, well-shaped or not, also if it is still to be
pulled: transforming first and then writing has the result of transforming while writing. That is an
error exactly if a node is misplaced, and names the first that is. -/
theorem traversals_agree (f : Value → Value) (level : Nat) (node : Node) :
    (node.mapBase (.map f) level).toValue level = node.toValueWith f level ∧
      (∀ data : Data,
        ((data.mapBase (.map f) level).toValue level).2 = data.toNode.toValueWith f level) ∧
      ∀ e, node.toValueWith f level = .error e ↔
        ∃ fault, node.FirstFault level fault ∧ e = .shapeMismatch fault := by
  refine ⟨toValue_mapBase_map f level node, fun data => ?_, fun e => toValueWith_eq_error_iff⟩
  rw [Data.toValue_snd, Data.toNode_mapBase (.map f)]
  exact toValue_mapBase_map f level data.toNode

end Node

end RecordFlow
