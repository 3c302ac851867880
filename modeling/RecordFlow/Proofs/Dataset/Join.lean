import RecordFlow.Proofs.Dataset.Nesting

/-!
# Merged rows

The rows of a merge, of two lists or of two datasets that hold those, are the rows of the
nested-loop join.
-/

namespace RecordFlow

open Merge (Disagree nestedLoop rowsOf)

variable {left right : List Value} {matcher : Merge.Matcher} {options : Merge.Options}

/-- A dataset of level one holds a list of rows. -/
def Dataset.Holds (d : Dataset) (rows : List Value) : Prop :=
  d.level = 1 ∧ d.data.toNode = .group (rows.map .record)

/-- A dataset of level one holds records. -/
theorem Dataset.Nested.holds {d : Dataset} (h : d.Nested) (hlevel : d.level = 1) :
    ∃ rows, d.Holds rows := by
  unfold Nested at h
  rw [hlevel] at h
  obtain ⟨items, hnode, hitems⟩ := Node.nested_succ_iff.1 h
  obtain ⟨rows, rfl⟩ := Node.exists_map_record hitems
  exact ⟨rows, hlevel, hnode⟩

theorem Dataset.Holds.nested {d : Dataset} {rows : List Value} (h : d.Holds rows) : d.Nested := by
  unfold Nested
  rw [h.1, h.2]
  exact .group (Node.nested_map_record rows)

theorem Node.toValue_rows (rows : List Value) :
    toValue 1 (.group (rows.map .record)) = .ok (.array rows) := by
  refine toValueWith_succ_eq_ok_iff.2 ⟨_, rows, rfl, rfl, ?_⟩
  rw [List.forall₂_map_left_iff, List.forall₂_same]
  exact fun _ _ => rfl

theorem Merge.rowsOf_toFeed {d : Dataset} {rows : List Value} (h : d.Holds rows) :
    rowsOf d.data.toFeed = rows := by
  unfold rowsOf
  rw [Data.items_toFeed, h.2]
  exact Node.filterMap_record? rows

/-- What a dataset holds is what one gets. -/
theorem Dataset.Holds.get {d : Dataset} {rows : List Value} (h : d.Holds rows) :
    d.get.result = .ok (.array rows) := by
  rw [h.nested.result_get, h.1, h.2]
  exact Node.toValue_rows rows

/-- A merge that keeps all rows delivers those of the nested-loop join. -/
theorem Merge.items_feeds_of_agree (hagree : ∀ fault, ¬ Disagree matcher options fault)
    (hdistinct : options.distinct = false) (observer : Option Observer) (left right : Feed Node) :
    ∃ plan, Plan.make matcher options = .ok plan ∧
      (feeds plan observer left right).items =
        (nestedLoop matcher.selectors.left matcher.selectors.right (matcher.combiner options).apply
          options.mapper (rowsOf left) (rowsOf right)).map .record := by
  refine ⟨_, Plan.make_of_agree hagree, ?_⟩
  rw [items_feeds, Plan.rows_eq_nestedLoop]
  simp [Plan.stored, Plan.probed, kept, hdistinct]

/-- **The hash join is the nested-loop join.** The rows of a merge of two lists, and of two datasets
that hold those, are for each right row its combinations with the left rows of its key, or with
none, and then the left rows whose key no right row has. -/
theorem Dataset.merge_eq_nestedLoop (left right : List Value)
    (hagree : ∀ fault, ¬ Disagree matcher options fault) (hdistinct : options.distinct = false) :
    let rows := nestedLoop matcher.selectors.left matcher.selectors.right
      (matcher.combiner options).apply options.mapper left right
    Merge.records left right matcher options = .ok rows ∧
      ∀ d incoming : Dataset, d.Holds left → incoming.Holds right →
        ((d.merge incoming matcher options).andThen fun _ d => d.get).result =
          .ok (.array rows) := by
  intro rows
  constructor
  · obtain ⟨plan, hplan, hitems⟩ := Merge.items_feeds_of_agree hagree hdistinct none
      (.ofList (left.map .record)) (.ofList (right.map .record))
    rw [Merge.rowsOf_ofList, Merge.rowsOf_ofList] at hitems
    refine bind_eq_ok_iff.2 ⟨plan, hplan, ?_⟩
    dsimp only
    rw [hitems, Node.filterMap_record?]
    rfl
  · intro d incoming hd hi
    obtain ⟨plan, hplan, hitems⟩ := Merge.items_feeds_of_agree hagree hdistinct d.observer
      d.data.toFeed incoming.data.toFeed
    rw [Merge.rowsOf_toFeed hd, Merge.rowsOf_toFeed hi] at hitems
    rw [merge_of_plan hd.1 hi.1 hplan]
    exact Holds.get ⟨hd.1, congrArg Node.group hitems⟩

/-- Two left rows and two right rows of one key each, and a right row whose key no left row has. -/
theorem Dataset.merge_eq_nestedLoop_of_duplicates :
    let combine := fun l r : Option Value => some (.array [l.getD .null, r.getD .null])
    Merge.records [.bool true, .string "a", .bool true] [.string "a", .bool false, .string "a"]
        (.on (.custom id id)) { combiner := some (.custom combine) } =
      .ok [.array [.string "a", .string "a"], .array [.null, .bool false],
        .array [.string "a", .string "a"], .array [.bool true, .null],
        .array [.bool true, .null]] := by
  intro combine
  have hagree : ∀ fault,
      ¬ Disagree (.on (.custom id id)) { combiner := some (.custom combine) } fault := by
    rintro _ ⟨hset⟩
    cases hset
  exact (Dataset.merge_eq_nestedLoop _ _ hagree rfl).1.trans rfl

end RecordFlow
