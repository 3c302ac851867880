import RecordFlow.Proofs.Dataset.Grouping

/-!
# Groups inside groups

Grouping a sequence of records by one key, and every group by another, gives the innermost groups
that grouping once by the pair of both keys gives. Only the order of the groups may differ: they
stand by first appearance of the pairs, or first of the one key and then of the other
(`Dataset.group_twice_perm_group_pairs`).
-/

namespace RecordFlow

/-- A pair of values has the key of another exactly if its parts have. -/
theorem Key.ofValue_pair_eq_iff {a b c d : Value} :
    ofValue (.array [a, b]) = ofValue (.array [c, d]) ↔
      ofValue a = ofValue c ∧ ofValue b = ofValue d := by
  simp [ofValue, ofItems]

namespace Dataset

variable {d : Dataset}

/-- **Grouping twice and grouping by pairs.** A dataset of records is grouped by one key and then by
another, which makes two more levels, or once by the pair of the two, which makes one more. The
innermost groups are the same, up to their order: the stable partition of the records by the pairs,
in which no group occurs twice. -/
theorem group_twice_perm_group_pairs (h : Reachable d) (hlevel : d.level = 1)
    (outer inner : Value → Value) :
    let pair := fun record => Value.array [outer record, inner record]
    let once := d.group outer
    let twice := once.dataset.group inner
    let paired := d.group pair
    once.result = .ok () ∧ twice.result = .ok () ∧ twice.dataset.level = 3 ∧
      paired.result = .ok () ∧ paired.dataset.level = 2 ∧
      ∃ records, d.get.result = .ok (.array records) ∧
        let groups := (bucketsOf (fun r => .ofValue (outer r)) records).map
          (bucketsOf fun r => .ofValue (inner r))
        let buckets := bucketsOf (fun r => .ofValue (pair r)) records
        twice.dataset.get.result =
            .ok (.array (groups.map fun parts => .array (parts.map .array))) ∧
          paired.dataset.get.result = .ok (.array (buckets.map .array)) ∧
          groups.flatten.Perm buckets ∧ buckets.Nodup ∧
          StablePartition (fun r => .ofValue (pair r)) records buckets := by
  intro pair once twice paired
  have honce : once.dataset.level = 2 := congrArg (· + 1) hlevel
  obtain ⟨records, hrecords⟩ := h.nested.holds hlevel
  have hv := hrecords.get
  have hgrouped := h.nested.get_group hlevel hv outer
  have hpaired := h.nested.get_group hlevel hv pair
  have htwice := (h.nested.group outer).get_group honce hgrouped inner
  simp only [Value.mapArrays, List.map_map] at htwice hpaired
  refine ⟨rfl, rfl, congrArg (· + 1) honce, rfl, congrArg (· + 1) hlevel, records, hv, ?_, hpaired,
    ?_, nodup_bucketsOf _ records, stablePartition_bucketsOf _ records⟩
  · rw [List.map_map]
    exact htwice
  · rw [← List.flatMap_def]
    exact flatMap_bucketsOf_perm (fun _ _ => Key.ofValue_pair_eq_iff) records

/-- Four pairs of booleans, two of them equal. The pair of the other outer key comes second, and its
group second or last. -/
theorem group_twice_perm_group_pairs_of_interleaved :
    let record := fun a b => Value.array [.bool a, .bool b]
    let tt := record true true
    let tf := record true false
    let ft := record false true
    let d := ofRecords [tt, ft, tf, tt]
    let outer := fun r : Value => r.atPath "0"
    let inner := fun r : Value => r.atPath "1"
    Reachable d ∧ d.level = 1 ∧
      ((d.group outer).dataset.group inner).dataset.get.result =
        .ok (.array [.array [.array [tt, tt], .array [tf]], .array [.array [ft]]]) ∧
      (d.group fun r => .array [outer r, inner r]).dataset.get.result =
        .ok (.array [.array [tt, tt], .array [ft], .array [tf]]) ∧
      [[tt, tt], [tf], [ft]].Perm [[tt, tt], [ft], [tf]] := by
  intro record tt tf ft d outer inner
  have hreachable : Reachable d := .source (.records [tt, ft, tf, tt]) none rfl
  obtain ⟨-, -, -, -, -, records, hrecords, htwice, hpaired, hperm, -, -⟩ :=
    group_twice_perm_group_pairs hreachable rfl outer inner
  cases hrecords
  exact ⟨hreachable, rfl, htwice, hpaired, hperm⟩

end Dataset

end RecordFlow
