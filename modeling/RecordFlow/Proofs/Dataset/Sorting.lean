import RecordFlow.Proofs.Dataset.Reachable
import RecordFlow.Proofs.Dataset.Rewriting
import RecordFlow.Proofs.StableSort
import RecordFlow.Proofs.Value.Order

/-!
# Sorted base groups

Sorting a dataset puts the stable sort of every base group in its place and leaves the nesting
around the base groups as it is (`Dataset.sort_stable`). That takes a comparator, or keys, that make
a total preorder of the records of a group (`Sorting.Lawful`). Keys do if floats tell apart the
integers in them, or if there are only integers.
-/

namespace RecordFlow

/-! ## Lawful orders -/

namespace Number

/-- All of some numbers are signed 64-bit integers, or those of them that are have magnitudes of at
most `2 ^ 53`. -/
def Separated (numbers : Number → Prop) : Prop :=
  (∀ n, numbers n → n.toInt64? ≠ none) ∨
    ∀ n i, numbers n → n.toInt64? = some i → i.natAbs ≤ 2 ^ 53

theorem value_toBinary64 {n : Number} {i : Int} (h : n.toInt64? = some i) (hi : i.natAbs ≤ 2 ^ 53) :
    n.toBinary64.value = i := by
  cases n with
  | float x => cases h
  | int m hm =>
    simp only [toInt64?] at h
    split_ifs at h
    cases h
    exact Binary64.value_ofInt hi

/-- No number passes for two integers where floats tell those apart. -/
theorem Separated.sharp {numbers : Number → Prop} (h : Separated numbers) : Sharp numbers := by
  intro n a b hn ha hb hblurs
  rcases h with hall | hsmall
  · exact hall n hn hblurs.inexact
  · obtain ⟨i, hi⟩ := Option.ne_none_iff_exists'.1 hblurs.left
    obtain ⟨j, hj⟩ := Option.ne_none_iff_exists'.1 hblurs.right
    have hvalue : (i : ℚ) = j := by
      rw [← value_toBinary64 hi (hsmall a i ha hi), ← value_toBinary64 hj (hsmall b j hb hj),
        hblurs.left_eq, hblurs.right_eq]
    cases Int.cast_inj.1 hvalue
    exact hblurs.ne (toInt64?_injective hi hj)

end Number

namespace Sorting

/-- A way of ordering records that makes a total preorder of some of them: by a comparator that
does, or by keys whose numbers are compared exactly. -/
inductive Lawful (records : List Value) : Sorting → Prop where
  | comparator {compare : Value → Value → Ordering} (h : TotalPreorder compare records) :
    Lawful records (.comparator compare)
  | key {keyOf : Value → Value}
    (h : Number.Separated fun n => ∃ record ∈ records, n ∈ (keyOf record).numbers) :
    Lawful records (.key keyOf)

/-- Keys in which no number blurs two others make a total preorder of the records. -/
theorem totalPreorder_key {sharp : Number → Prop} (h : Number.Sharp sharp) {keyOf : Value → Value}
    {records : List Value} (hkeys : ∀ record ∈ records, ∀ n ∈ (keyOf record).numbers, sharp n) :
    TotalPreorder (key keyOf).order records := by
  refine ⟨fun a _ b _ => Value.order_swap (keyOf a) (keyOf b), ?_⟩
  intro a ha b hb c hc hab hbc
  have hcomposes := Value.order_composes h (keyOf a) (keyOf b) (keyOf c) (hkeys a ha) (hkeys b hb)
    (hkeys c hc)
  exact hcomposes.ne_gt hab hbc

theorem Lawful.totalPreorder {sorting : Sorting} {records : List Value}
    (h : sorting.Lawful records) : TotalPreorder sorting.order records := by
  cases h with
  | comparator h => exact h
  | key h => exact totalPreorder_key h.sharp fun record hrecord n hn => ⟨record, hrecord, hn⟩

end Sorting

/-! ## Datasets -/

/-- Sorting writes the sorted records. -/
theorem Stage.writes_sort (sorting : Sorting) :
    (sort sorting).Writes 0 0 fun vs => .array (sortBy sorting.order vs) := by
  intro items vs h
  rw [Node.toValue_one_eq_ok_iff] at h
  subst h
  rw [Node.toValue_one_eq_ok_iff]
  simp only [onList, sort, Feed.items_gather, Feed.items_ofList]
  exact insertionSort_map (comesBefore sorting) .record vs

namespace Dataset

variable {d : Dataset} {depth : Nat}

/-- **Sorting is the stable sort of each base group.** Every base group is replaced by its sorted
records, and nothing else changes. Where the order is lawful on a base group, the sorted records are
its stable sort, and there is no other. -/
theorem sort_stable (h : Reachable d) (hlevel : d.level = depth + 1) (sorting : Sorting) :
    let sorted := d.sort sorting
    sorted.result = .ok () ∧ sorted.dataset.level = d.level ∧
      (∃ v, d.get.result = .ok v ∧ v.Nested d.level ∧
        sorted.dataset.get.result =
          .ok (v.mapArrays (fun rs => .array (sortBy sorting.order rs)) depth)) ∧
      ∀ records, sorting.Lawful records →
        StableSort sorting.order records (sortBy sorting.order records) ∧
          ∀ other, StableSort sorting.order records other →
            other = sortBy sorting.order records := by
  intro sorted
  obtain ⟨v, hv, hnested⟩ := h.nested.exists_value
  refine ⟨rfl, rfl, ⟨v, hv, hnested, ?_⟩, fun records hlawful => ?_⟩
  · exact h.nested.get_chain .sort (.sort sorting) (Stage.writes_sort sorting) hlevel hv
  · have hpreorder := hlawful.totalPreorder
    have hstable := stableSort_sortBy hpreorder
    exact ⟨hstable, fun other hother => hstable.unique hpreorder hother⟩

/-- Two groups, one of them empty, are sorted by a field. The float `-0.0` goes before the integer
zero, and the records with that integer keep their order. -/
theorem sort_stable_of_zeros :
    let record := fun (k : Number) (id : String) =>
      Value.object [("id", .string id), ("k", .number k)]
    let zero : Number := .int 0 (by decide)
    let negative : Number := .float ⟨0x8000000000000000, by decide⟩
    let records := [record zero "a", record negative "b", record zero "c"]
    let sorting := Sorting.field "k"
    let sorted := [record negative "b", record zero "a", record zero "c"]
    let v := Value.array [.array records, .array []]
    ∃ d, ofNested v 2 = .ok d ∧ Reachable d ∧ d.level = 2 ∧ sorting.Lawful records ∧
      StableSort sorting.order records sorted ∧
      (d.sort sorting).dataset.get.result = .ok (.array [.array sorted, .array []]) := by
  intro record zero negative records sorting sorted v
  obtain ⟨d, hd⟩ : ∃ d, ofNested v 2 = .ok d := ⟨_, rfl⟩
  obtain ⟨hreachable, hlevel, hv⟩ := reachable_ofNested hd
  have hlawful : sorting.Lawful records := by
    refine .key (.inr ?_)
    rintro n i ⟨r, hr, hn⟩ hi
    have hkey : r.atPath "k" = .number zero ∨ r.atPath "k" = .number negative := by
      simp only [records, List.mem_cons, List.not_mem_nil, or_false] at hr
      rcases hr with rfl | rfl | rfl
      · exact .inl rfl
      · exact .inr rfl
      · exact .inl rfl
    rcases hkey with hkey | hkey <;> rw [hkey] at hn <;> cases List.mem_singleton.1 hn <;> cases hi
    decide
  obtain ⟨-, -, ⟨w, hw, -, hsorted⟩, hstable⟩ := sort_stable hreachable hlevel sorting
  cases hv.symm.trans hw
  have heq : sortBy sorting.order records = sorted := by
    dsimp +zetaDelta only
    rfl
  have hsort := (hstable records hlawful).1
  rw [heq] at hsort
  have hgroups := congrArg (fun rs => Value.array [.array rs, .array []]) heq
  exact ⟨d, hd, hreachable, hlevel, hlawful, hsort, hsorted.trans (congrArg Except.ok hgroups)⟩

end Dataset

end RecordFlow
