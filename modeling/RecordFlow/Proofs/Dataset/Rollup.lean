import RecordFlow.Proofs.Dataset.Grouping
import RecordFlow.Proofs.Dataset.Reducing
import RecordFlow.Proofs.Reducer.Regrouping

/-!
# Aggregates through groups

Aggregating a dataset of records directly, and aggregating its groups and their aggregates then, give
the same object for every key that the records may be grouped by (`Dataset.reduce_through_groups`).
-/

namespace RecordFlow

/-- Counts the records, and sums up the numbers at a path and takes their extremes. -/
def Aggregate.summary (path : String) : Aggregate :=
  (((({} : Aggregate).count "n").column "s" .sum path).column "lo" .min path).column "hi" .max path

/-- Sums up counts and sums, and takes the extremes of extremes. -/
def Aggregate.summaries : Aggregate :=
  (((({} : Aggregate).column "n" .sum "n").column "s" .sum "s").column "lo" .min "lo").column "hi"
    .max "hi"

namespace Aggregate

variable {path : String} {records : List Value}

/-- The fields of a summary, by name. -/
theorem summary_apply (path : String) (records : List Value) :
    (summary path).apply records =
      .object [("hi", Reduction.max.apply records path), ("lo", Reduction.min.apply records path),
        ("n", .ofCount records.length), ("s", Reduction.sum.apply records path)] := by
  have hs : ¬ "s" < "n" := by decide
  have hsn : ¬ "s" = "n" := by decide
  have hlo : "lo" < "n" := by decide
  have hhi : "hi" < "lo" := by decide
  have hentries : (summary path).columns.map (fun c => (c.name, c.reduction.apply records c.field)) =
      [("n", .ofCount records.length), ("s", Reduction.sum.apply records path),
        ("lo", Reduction.min.apply records path), ("hi", Reduction.max.apply records path)] := rfl
  unfold apply
  rw [hentries]
  simp only [Fields.ofList, List.foldl_cons, List.foldl_nil, Fields.insert, if_neg hs, if_neg hsn,
    if_pos hlo, if_pos hhi]

/-- Where no number is found, there is no sum and no extreme. -/
theorem summary_apply_of_no_numbers (h : Reduction.numbersAt path records = []) :
    (summary path).apply records =
      .object [("hi", .null), ("lo", .null), ("n", .ofCount records.length), ("s", .null)] := by
  have hnone : ∀ op ∈ [Reduction.sum, .min, .max], op.apply records path = .null := by
    intro op hop
    rw [Reduction.apply_eq_reduceInts hop (by rw [h]; exact List.forall_mem_nil _), Reduction.intsAt, h]
    rfl
  rw [summary_apply, hnone .max (by simp), hnone .min (by simp), hnone .sum (by simp)]

/-- Summing up the summaries of groups is summing up all their records. -/
theorem summaries_apply {buckets : List (List Value)} (hne : records ≠ [])
    (hlength : FitsInt64 records.length)
    (hints : ∀ n ∈ Reduction.numbersAt path records, n.toInt64? ≠ none)
    (hspread : spread (Reduction.intsAt path records) ≤ 0x7fffffffffffffff)
    (hperm : buckets.flatten.Perm records) (hbuckets : ∀ bucket ∈ buckets, bucket ≠ []) :
    summaries.apply (buckets.map (summary path).apply) = (summary path).apply records := by
  have hcolumns : (summary path).columns =
      [⟨"n", "", .count⟩, ⟨"s", path, .sum⟩, ⟨"lo", path, .min⟩, ⟨"hi", path, .max⟩] := rfl
  have hrollup : summaries = (summary path).rollup := rfl
  rw [hrollup]
  refine rollup_apply ?_ ?_ ?_ hne hperm hbuckets
  · rw [hcolumns]
    exact show ["n", "s", "lo", "hi"].Nodup by decide
  · rw [hcolumns]
    simp only [List.forall_mem_cons]
    exact ⟨by decide +kernel, by decide +kernel, by decide +kernel, by decide +kernel,
      List.forall_mem_nil _⟩
  · rw [hcolumns]
    simp only [List.forall_mem_cons]
    exact ⟨.count rfl hlength, .fold (by simp) hints hspread, .fold (by simp) hints hspread,
      .fold (by simp) hints hspread, List.forall_mem_nil _⟩

end Aggregate

namespace Dataset

variable {d : Dataset} {records : List Value} {path : String}

/-- **Aggregating through groups is aggregating directly.** The records of a dataset, of which there
are some, are grouped by a key, every group is summed up, and the summaries are then summed up in
turn: that gives the object that summing up the records gives, one level at a time. The numbers at
the path must be signed 64-bit integers whose magnitudes have a sum that fits, and so must the number
of records, as it does of any list in memory. A group without a number at the path has null for its
sum and its extremes, which do not matter then. -/
theorem reduce_through_groups (h : Reachable d) (hlevel : d.level = 1)
    (hrecords : d.get.result = .ok (.array records)) (hne : records ≠ [])
    (hlength : FitsInt64 records.length)
    (hints : ∀ n ∈ Reduction.numbersAt path records, n.toInt64? ≠ none)
    (hspread : ((Reduction.intsAt path records).map Int.natAbs).sum ≤ 0x7fffffffffffffff)
    (keyOf : Value → Value) :
    let key := fun record => Key.ofValue (keyOf record)
    let summary := Reducer.aggregate (.summary path)
    let grouped := d.group keyOf
    let folded := grouped.dataset.reduce summary
    let refolded := folded.dataset.reduce (.aggregate .summaries)
    let flat := d.reduce summary
    (grouped.result = .ok () ∧ grouped.dataset.level = 2) ∧
      (folded.result = .ok () ∧ folded.dataset.level = 1) ∧
      (refolded.result = .ok () ∧ refolded.dataset.level = 0) ∧
      (flat.result = .ok () ∧ flat.dataset.level = 0) ∧
      refolded.dataset.get.result = flat.dataset.get.result ∧
      flat.dataset.get.result = .ok ((Aggregate.summary path).apply records) ∧
      folded.dataset.get.result =
        .ok (.array ((bucketsOf key records).map (Aggregate.summary path).apply)) ∧
      ∀ bucket ∈ bucketsOf key records, Reduction.numbersAt path bucket = [] →
        (Aggregate.summary path).apply bucket =
          .object [("hi", .null), ("lo", .null), ("n", .ofCount bucket.length), ("s", .null)] := by
  intro key summary grouped folded refolded flat
  have hgrouped : grouped.dataset.Nested := h.nested.group keyOf
  have hgroupedLevel : grouped.dataset.level = 2 := congrArg (· + 1) hlevel
  have hgroups := h.nested.get_group hlevel hrecords keyOf
  have hfolded : folded.dataset.Nested := hgrouped.reduceWith summary true
  obtain ⟨hfoldedLevel, hfolds⟩ := hgrouped.get_reduce hgroupedLevel hgroups summary
  obtain ⟨hrefoldedLevel, hrefold⟩ :=
    hfolded.get_reduce hfoldedLevel hfolds (.aggregate .summaries)
  obtain ⟨hflatLevel, hflat⟩ := h.nested.get_reduce hlevel hrecords summary
  simp only [Value.mapArrays, List.map_map] at hfolds hrefold hflat
  have hpartition := stablePartition_bucketsOf key records
  have hsummaries : Aggregate.summaries.apply
      ((bucketsOf key records).map (Aggregate.summary path).apply) =
      (Aggregate.summary path).apply records :=
    Aggregate.summaries_apply hne hlength hints hspread hpartition.perm hpartition.ne_nil
  refine ⟨⟨rfl, hgroupedLevel⟩, ⟨hgrouped.reduceWith_result summary true, hfoldedLevel⟩,
    ⟨hfolded.reduceWith_result (.aggregate .summaries) true, hrefoldedLevel⟩,
    ⟨h.nested.reduceWith_result summary true, hflatLevel⟩, ?_, hflat, hfolds,
    fun bucket _ hnone => Aggregate.summary_apply_of_no_numbers hnone⟩
  exact hrefold.trans ((congrArg Except.ok hsummaries).trans hflat.symm)

/-- Two groups, of which one has no number at the path. -/
theorem reduce_through_groups_of_missing_numbers :
    let int := fun n => Value.number (.ofIntClamped n)
    let record := fun (key : Bool) (v : Value) => Value.object [("k", .bool key), ("v", v)]
    let records := [record true (int 5), record false .null, record true (int (-7))]
    let d := ofRecords records
    let keyOf := fun r : Value => r.atPath "k"
    let folded := (d.group keyOf).dataset.reduce (.aggregate (.summary "v"))
    let refolded := folded.dataset.reduce (.aggregate .summaries)
    Reachable d ∧ d.level = 1 ∧ d.get.result = .ok (.array records) ∧ records ≠ [] ∧
      FitsInt64 records.length ∧
      (∀ n ∈ Reduction.numbersAt "v" records, n.toInt64? ≠ none) ∧
      ((Reduction.intsAt "v" records).map Int.natAbs).sum ≤ 0x7fffffffffffffff ∧
      refolded.dataset.get.result =
        .ok (.object [("hi", int 5), ("lo", int (-7)), ("n", .ofCount 3), ("s", int (-2))]) := by
  intro int record records d keyOf folded refolded
  have hreachable : Reachable d := .source (.records records) none rfl
  have hints : ∀ n ∈ Reduction.numbersAt "v" records, n.toInt64? ≠ none := by decide +kernel
  have hspread : ((Reduction.intsAt "v" records).map Int.natAbs).sum ≤ 0x7fffffffffffffff := by
    decide +kernel
  obtain ⟨-, -, -, -, hrefolded, hflat, -, -⟩ := reduce_through_groups hreachable rfl rfl
    (List.cons_ne_nil _ _) (by decide) hints hspread keyOf
  have hvalue : (Aggregate.summary "v").apply records =
      .object [("hi", int 5), ("lo", int (-7)), ("n", .ofCount 3), ("s", int (-2))] := by
    rw [Aggregate.summary_apply]
    rfl
  rw [hvalue] at hflat
  exact ⟨hreachable, rfl, rfl, List.cons_ne_nil _ _, by decide, hints, hspread,
    hrefolded.trans hflat⟩

end Dataset

end RecordFlow
