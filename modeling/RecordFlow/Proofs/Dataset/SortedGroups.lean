import RecordFlow.Proofs.Dataset.Grouping
import RecordFlow.Proofs.Dataset.Sorting
import RecordFlow.Proofs.Value.Ties

/-!
# Sorting and grouping by one key

Sorting a dataset by a key brings together the records that grouping by the key puts in one group,
so the sorted records are the groups in a row, in the order of their keys. That takes numbers which
comparing tells apart exactly where their keys differ (`Number.Faithful`), and for those it holds of
every dataset (`Dataset.sort_flattens_groups`).
-/

namespace RecordFlow

/-! ## Ties that are keys -/

section Ties

variable {α : Type} {order : α → α → Ordering} {key : α → Key} {xs ys : List α}

/-- Items that a list is sorted by stand together where they tie. -/
theorem StableSort.contiguous (h : TotalPreorder order xs) (hsort : StableSort order xs ys)
    (hties : ∀ x ∈ xs, ∀ y ∈ xs, order x y = .eq ↔ key x = key y) {x y z : α}
    (hsub : [x, y, z].Sublist ys) (hkey : key x = key z) : key y = key x := by
  have hmem : ∀ w ∈ [x, y, z], w ∈ xs := fun w hw => hsort.perm.subset (hsub.subset hw)
  have hx : x ∈ xs := hmem x (by simp)
  have hy : y ∈ xs := hmem y (by simp)
  have hz : z ∈ xs := hmem z (by simp)
  have hsorted : [x, y, z].Pairwise fun v w => order v w ≠ .gt := hsort.sorted.sublist hsub
  simp only [List.pairwise_cons, List.mem_cons, List.not_mem_nil, or_false, forall_eq_or_imp,
    forall_eq] at hsorted
  obtain ⟨⟨hxy, -⟩, hyz, -⟩ := hsorted
  -- the last item ties with the first, so the one between them comes after neither
  have hzx : order z x = .eq := (hties z hz x hx).2 hkey.symm
  have hyx : order y x ≠ .gt := h.trans y hy z hz x hx hyz (by rw [hzx]; decide)
  refine (hties y hy x hx).1 ?_
  rw [h.swap x hx y hy] at hyx ⊢
  cases hcompare : order x y with
  | lt => exact absurd (by rw [hcompare]; rfl) hyx
  | eq => rfl
  | gt => exact absurd hcompare hxy

/-- A list sorted so that items tie if they have one key is its buckets in a row, and these are the
buckets of the list before it was sorted. -/
theorem StableSort.eq_flatten_buckets (h : TotalPreorder order xs) (hsort : StableSort order xs ys)
    (hties : ∀ x ∈ xs, ∀ y ∈ xs, order x y = .eq ↔ key x = key y) :
    (bucketsOf key ys).flatten = ys ∧ (bucketsOf key ys).Perm (bucketsOf key xs) := by
  refine ⟨flatten_bucketsOf fun x y z => hsort.contiguous h hties, ?_⟩
  refine bucketsOf_perm hsort.perm fun x hx => ?_
  have hclass : ∀ zs : List α, (∀ z ∈ zs, z ∈ xs) →
      zs.filter (key · = key x) = zs.filter (order x · == .eq) := by
    intro zs hzs
    refine List.filter_congr fun z hz => ?_
    rw [Bool.eq_iff_iff, decide_eq_true_iff, beq_iff_eq, hties x hx z (hzs z hz), eq_comm]
  rw [hclass ys fun z hz => hsort.perm.subset hz, hclass xs fun z hz => hz, hsort.stable x hx]

end Ties

namespace Dataset

/-- **Sorted records are groups in a row.** Comparing finds those values equal that have one key
exactly if it tells the numbers in them apart, as it does all integers of 53 bits and all floats but
`-0.0`. For such keys sorting replaces every base group by the groups that grouping by the key
splits it into, put one after another, each with its records in order. -/
theorem sort_flattens_groups (allowed : Number → Prop) :
    ((∀ a b : Value, (∀ n ∈ a.numbers, allowed n) → (∀ n ∈ b.numbers, allowed n) →
        (a.order b = .eq ↔ Key.ofValue a = Key.ofValue b)) ↔ Number.Faithful allowed) ∧
      ((∀ i inRange, allowed (.int i inRange) → i.natAbs ≤ 2 ^ 53) →
        ¬ allowed (.float .negativeZero) → Number.Faithful allowed) ∧
      (Number.Faithful allowed →
        ∀ d, Reachable d → ∀ depth, d.level = depth + 1 → ∀ keyOf : Value → Value,
          let sorted : List Value → List Value := sortBy (Sorting.key keyOf).order
          let groups : List Value → List (List Value) :=
            bucketsOf fun record => Key.ofValue (keyOf record)
          (∃ v, d.get.result = .ok v ∧
            (d.sort (.key keyOf)).dataset.get.result =
              .ok (v.mapArrays (fun rs => .array (sorted rs)) depth) ∧
            (d.group keyOf).dataset.get.result =
              .ok (v.mapArrays (fun rs => .array ((groups rs).map .array)) depth)) ∧
            ∀ records, (∀ record ∈ records, ∀ n ∈ (keyOf record).numbers, allowed n) →
              ∃ inOrder : List (List Value),
                inOrder.Perm (groups records) ∧ sorted records = inOrder.flatten) := by
  refine ⟨Value.order_agrees_iff, Number.faithful_of_small, ?_⟩
  intro hfaithful d h depth hlevel keyOf sorted groups
  obtain ⟨v, hv, -⟩ := h.nested.exists_value
  refine ⟨⟨v, hv, ?_, h.nested.get_group hlevel hv keyOf⟩, fun records hkeys => ?_⟩
  · exact h.nested.get_chain .sort (.sort (.key keyOf)) (Stage.writes_sort (.key keyOf)) hlevel hv
  · have hpreorder := Sorting.totalPreorder_key hfaithful.sharp hkeys
    have hties : ∀ x ∈ records, ∀ y ∈ records, (Sorting.key keyOf).order x y = .eq ↔
        Key.ofValue (keyOf x) = Key.ofValue (keyOf y) := fun x hx y hy =>
      Value.order_eq_iff_ofValue_eq hfaithful (keyOf x) (keyOf y) (hkeys x hx) (hkeys y hy)
    obtain ⟨hflatten, hperm⟩ :=
      (stableSort_sortBy hpreorder).eq_flatten_buckets hpreorder hties
    exact ⟨groups (sorted records), hperm, hflatten.symm⟩

/-- The integer `2 ^ 53 + 1` compares as equal to the float `2 ^ 53`, though their keys differ, and
between two records with that float it stays where it is when they are sorted. The zeros `0` and
`-0.0` have one key and do not compare as equal. -/
theorem sort_separates_groups :
    let next : Value := .number (.int 9007199254740993 (by decide))
    let power : Value := .number (.float ⟨0x4340000000000000, by decide⟩)
    let zero : Value := .number (.int 0 (by decide))
    let negative : Value := .number (.float .negativeZero)
    next.order power = .eq ∧ Key.ofValue next ≠ Key.ofValue power ∧
      sortBy (Sorting.key id).order [power, next, power] = [power, next, power] ∧
      bucketsOf Key.ofValue [power, next, power] = [[power, power], [next]] ∧
      zero.order negative ≠ .eq ∧ Key.ofValue zero = Key.ofValue negative := by
  intro next power zero negative
  have htie : next.order power = .eq := by decide +kernel
  have htie' : power.order next = .eq := by decide +kernel
  have hkeys : Key.ofValue next ≠ Key.ofValue power := by decide +kernel
  have hsorted : sortBy (Sorting.key id).order [power, next, power] = [power, next, power] := by
    simp [sortBy, insertionSort, insertReversed, Sorting.order, htie, htie']
  have hgroups : bucketsOf Key.ofValue [power, next, power] = [[power, power], [next]] := by
    simp [bucketsOf_cons, hkeys]
  exact ⟨htie, hkeys, hsorted, hgroups, by decide +kernel, by decide +kernel⟩

end Dataset

end RecordFlow
