import Mathlib.Algebra.BigOperators.Group.List.Basic
import Mathlib.Algebra.Order.BigOperators.Group.List
import Mathlib.Algebra.Order.Ring.Int
import RecordFlow.Reducer

/-!
# Sums of integers

A sum of integers is held to the signed 64-bit range after every addition (`heldSum`), so it may
depend on the order of the integers, also where their sum fits (`Reduction.sum_held_back`). It is
exact as long as every running total fits, and exact in every order exactly if the integers that are
not negative have a sum that fits and the negative ones too (`Reduction.sum_exact`).
-/

namespace RecordFlow

/-! ## Held sums -/

/-- An integer lies in the signed 64-bit range. -/
def FitsInt64 (n : Int) : Prop := -0x8000000000000000 ≤ n ∧ n ≤ 0x7fffffffffffffff

instance (n : Int) : Decidable (FitsInt64 n) :=
  inferInstanceAs (Decidable (_ ∧ _))

/-- The sum of integers, held to the signed 64-bit range after every addition. -/
def heldSum (ints : List Int) : Int := ints.foldl Reduction.sum.combineInt 0

/-- The integers that are not negative. -/
def gains (ints : List Int) : List Int := ints.filter (0 ≤ ·)

/-- The negative integers. -/
def losses (ints : List Int) : List Int := ints.filter fun n => !decide (0 ≤ n)

variable {ints : List Int} {total n : Int}

@[simp] theorem combineInt_sum (total n : Int) :
    Reduction.sum.combineInt total n = Number.clamp (total + n) := rfl

theorem fits_clamp (n : Int) : FitsInt64 (Number.clamp n) := by
  unfold FitsInt64 Number.clamp
  omega

theorem clamp_of_fits (h : FitsInt64 n) : Number.clamp n = n := by
  unfold FitsInt64 at h
  unfold Number.clamp
  omega

theorem fits_foldl (h : FitsInt64 total) :
    FitsInt64 (ints.foldl Reduction.sum.combineInt total) := by
  induction ints generalizing total with
  | nil => exact h
  | cons n ints ih => exact ih (fits_clamp (total + n))

theorem fits_heldSum (ints : List Int) : FitsInt64 (heldSum ints) :=
  fits_foldl (by decide)

/-- Running totals that all fit are never held back. -/
theorem foldl_of_fits (h : ∀ k, FitsInt64 (total + (ints.take k).sum)) :
    ints.foldl Reduction.sum.combineInt total = total + ints.sum := by
  induction ints generalizing total with
  | nil => exact (Int.add_zero total).symm
  | cons n ints ih =>
    have hfirst : Number.clamp (total + n) = total + n := by
      have hone := h 1
      rw [List.take_succ_cons, List.take_zero, List.sum_singleton] at hone
      exact clamp_of_fits hone
    rw [List.foldl_cons, combineInt_sum, hfirst, List.sum_cons, ← Int.add_assoc]
    refine ih fun k => ?_
    have hnext := h (k + 1)
    rwa [List.take_succ_cons, List.sum_cons, ← Int.add_assoc] at hnext

theorem heldSum_of_fits (h : ∀ k, FitsInt64 (ints.take k).sum) : heldSum ints = ints.sum := by
  have hfold : heldSum ints = 0 + ints.sum := foldl_of_fits fun k => by
    rw [Int.zero_add]
    exact h k
  rw [hfold, Int.zero_add]

/-! ## Signs -/

theorem gains_append_losses_perm (ints : List Int) : (gains ints ++ losses ints).Perm ints :=
  List.filter_append_perm _ ints

theorem sum_gains_add_sum_losses (ints : List Int) :
    (gains ints).sum + (losses ints).sum = ints.sum := by
  rw [← List.sum_append, (gains_append_losses_perm ints).sum_eq]

theorem nonneg_of_mem_gains (h : n ∈ gains ints) : 0 ≤ n :=
  of_decide_eq_true (List.mem_filter.1 h).2

theorem nonpos_of_mem_losses (h : n ∈ losses ints) : n ≤ 0 := by
  have hneg : ¬ 0 ≤ n := by simpa using (List.mem_filter.1 h).2
  omega

theorem sum_nonpos (h : ∀ n ∈ ints, n ≤ 0) : ints.sum ≤ 0 := by
  simpa using List.sum_le_card_nsmul ints 0 h

theorem sum_gains_nonneg (ints : List Int) : 0 ≤ (gains ints).sum :=
  List.sum_nonneg fun _ => nonneg_of_mem_gains

theorem sum_losses_nonpos (ints : List Int) : (losses ints).sum ≤ 0 :=
  sum_nonpos fun _ => nonpos_of_mem_losses

@[simp] theorem sum_gains_cons (n : Int) (ints : List Int) :
    (gains (n :: ints)).sum = max 0 n + (gains ints).sum := by
  by_cases h : 0 ≤ n
  · simp [gains, h]
  · simp [gains, h, max_eq_left (Int.le_of_not_le h)]

@[simp] theorem sum_losses_cons (n : Int) (ints : List Int) :
    (losses (n :: ints)).sum = min 0 n + (losses ints).sum := by
  by_cases h : 0 ≤ n
  · simp [losses, h]
  · simp [losses, h, min_eq_right (Int.le_of_not_le h)]

/-- Every running total lies between the sum of the losses and that of the gains. -/
theorem sum_take_bounds (ints : List Int) (k : Nat) :
    (losses ints).sum ≤ (ints.take k).sum ∧ (ints.take k).sum ≤ (gains ints).sum := by
  induction ints generalizing k with
  | nil => simp [gains, losses]
  | cons n ints ih =>
    cases k with
    | zero => exact ⟨sum_losses_nonpos _, sum_gains_nonneg _⟩
    | succ k =>
      obtain ⟨hlow, hhigh⟩ := ih k
      rw [List.take_succ_cons, List.sum_cons, sum_losses_cons, sum_gains_cons]
      omega

/-- Running totals of integers of one sign move one way, so they are held back at one end only, as
their sum is. -/
theorem foldl_of_sign (hfits : FitsInt64 total)
    (h : (∀ n ∈ ints, 0 ≤ n) ∨ ∀ n ∈ ints, n ≤ 0) :
    ints.foldl Reduction.sum.combineInt total = Number.clamp (total + ints.sum) := by
  induction ints generalizing total with
  | nil => exact (Int.add_zero total).symm ▸ (clamp_of_fits hfits).symm
  | cons n ints ih =>
    have hsign : (0 ≤ n ∧ 0 ≤ ints.sum) ∨ (n ≤ 0 ∧ ints.sum ≤ 0) := by
      simp only [List.forall_mem_cons] at h
      exact h.imp (.imp_right List.sum_nonneg) (.imp_right sum_nonpos)
    have hrest := h.imp List.forall_mem_of_forall_mem_cons List.forall_mem_of_forall_mem_cons
    rw [List.foldl_cons, combineInt_sum, ih (fits_clamp _) hrest, List.sum_cons]
    unfold FitsInt64 at hfits
    unfold Number.clamp
    omega

/-- Integers that rise first and then fall are held back once at either end. -/
theorem heldSum_gains_losses (ints : List Int) :
    heldSum (gains ints ++ losses ints) =
      Number.clamp (Number.clamp (gains ints).sum + (losses ints).sum) := by
  rw [heldSum, List.foldl_append, foldl_of_sign (by decide) (.inl fun _ => nonneg_of_mem_gains),
    Int.zero_add, foldl_of_sign (fits_clamp _) (.inr fun _ => nonpos_of_mem_losses)]

/-- Integers that fall first and then rise are held back once at either end. -/
theorem heldSum_losses_gains (ints : List Int) :
    heldSum (losses ints ++ gains ints) =
      Number.clamp (Number.clamp (losses ints).sum + (gains ints).sum) := by
  rw [heldSum, List.foldl_append, foldl_of_sign (by decide) (.inr fun _ => nonpos_of_mem_losses),
    Int.zero_add, foldl_of_sign (fits_clamp _) (.inl fun _ => nonneg_of_mem_gains)]

/-- **Exactness in every order.** Held sums of integers are exact in every order exactly if the sum
of the gains and the sum of the losses fit. -/
theorem heldSum_of_perm_iff :
    (∀ others, others.Perm ints → heldSum others = ints.sum) ↔
      FitsInt64 (gains ints).sum ∧ FitsInt64 (losses ints).sum := by
  constructor
  · intro h
    have hperm := gains_append_losses_perm ints
    have hup := h _ hperm
    have hdown := h _ (List.perm_append_comm.trans hperm)
    rw [heldSum_gains_losses, ← sum_gains_add_sum_losses ints] at hup
    rw [heldSum_losses_gains, ← sum_gains_add_sum_losses ints] at hdown
    have hgains := sum_gains_nonneg ints
    have hlosses := sum_losses_nonpos ints
    unfold Number.clamp at hup hdown
    unfold FitsInt64
    omega
  · rintro ⟨hgains, hlosses⟩ others hperm
    rw [← hperm.sum_eq]
    refine heldSum_of_fits fun k => ?_
    obtain ⟨hlow, hhigh⟩ := sum_take_bounds others k
    rw [losses, (hperm.filter _).sum_eq, ← losses] at hlow
    rw [gains, (hperm.filter _).sum_eq, ← gains] at hhigh
    exact ⟨hlosses.1.trans hlow, hhigh.trans hgains.2⟩

/-! ## Sums of fields -/

/-- A value is an integer. -/
def Value.IsInt (v : Value) (n : Int) : Prop := ∃ inRange, v = .number (.int n inRange)

theorem isInt_ofIntClamped_iff {m : Int} (h : FitsInt64 m) :
    (Value.number (.ofIntClamped m)).IsInt n ↔ n = m := by
  have hclamp := clamp_of_fits h
  constructor
  · rintro ⟨_, heq⟩
    cases heq
    exact hclamp
  · rintro rfl
    exact ⟨by unfold FitsInt64 at h; omega, by simp only [Number.ofIntClamped, hclamp]⟩

namespace Reduction

/-- The numbers found at a path of records. -/
def numbersAt (path : String) (records : List Value) : List Number :=
  records.filterMap fun r => (r.atPath path).number?

/-- The signed 64-bit integers found at a path of records. -/
def intsAt (path : String) (records : List Value) : List Int :=
  (numbersAt path records).filterMap Number.toInt64?

variable {path : String} {records others : List Value}

theorem fits_of_toInt64? {number : Number} (h : number.toInt64? = some n) : FitsInt64 n := by
  cases number with
  | float x => cases h
  | int m hm =>
    simp only [Number.toInt64?] at h
    split at h
    · cases h
      unfold FitsInt64
      omega
    · cases h

theorem mapM_toInt64? {numbers : List Number} (h : ∀ n ∈ numbers, n.toInt64? ≠ none) :
    numbers.mapM Number.toInt64? = some (numbers.filterMap Number.toInt64?) := by
  induction numbers with
  | nil => rfl
  | cons number numbers ih =>
    rw [List.forall_mem_cons] at h
    obtain ⟨n, hn⟩ := Option.ne_none_iff_exists'.1 h.1
    rw [List.mapM_cons, List.filterMap_cons_some hn, hn, ih h.2]
    rfl

/-- The sum of no integers is null; any others give their held sum. -/
theorem reduceInts_sum (hne : ints ≠ []) (hfits : ∀ n ∈ ints, FitsInt64 n) :
    sum.reduceInts ints = .number (.ofIntClamped (heldSum ints)) := by
  cases ints with
  | nil => exact absurd rfl hne
  | cons n rest =>
    have hfirst : Number.clamp (0 + n) = n := by
      rw [Int.zero_add, clamp_of_fits (hfits n List.mem_cons_self)]
    rw [heldSum, List.foldl_cons, combineInt_sum, hfirst]
    rfl

theorem ne_avg {op : Reduction} (hop : op ∈ [sum, min, max]) : op ≠ avg := by
  rintro rfl
  simp at hop

/-- Sums and extremes look at no more of the records than the numbers at a path. -/
theorem apply_eq_reduceNumbers {op : Reduction} (hop : op ∈ [sum, min, max]) :
    op.apply records path = op.reduceNumbers (numbersAt path records) := by
  simp only [List.mem_cons, List.not_mem_nil, or_false] at hop
  rcases hop with rfl | rfl | rfl <;> rfl

/-- Where all numbers are signed 64-bit integers, sums and extremes fold these. -/
theorem apply_eq_reduceInts {op : Reduction} (hop : op ∈ [sum, min, max])
    (hints : ∀ n ∈ numbersAt path records, n.toInt64? ≠ none) :
    op.apply records path = op.reduceInts (intsAt path records) := by
  rw [apply_eq_reduceNumbers hop, reduceNumbers, if_neg (ne_avg hop), mapM_toInt64? hints]
  rfl

theorem apply_sum (hints : ∀ n ∈ numbersAt path records, n.toInt64? ≠ none)
    (hfound : numbersAt path records ≠ []) :
    sum.apply records path = .number (.ofIntClamped (heldSum (intsAt path records))) := by
  have hne : intsAt path records ≠ [] := by
    obtain ⟨number, hmem⟩ := List.exists_mem_of_ne_nil _ hfound
    obtain ⟨n, hn⟩ := Option.ne_none_iff_exists'.1 (hints number hmem)
    exact List.ne_nil_of_mem (List.mem_filterMap.2 ⟨number, hmem, hn⟩)
  have hfits : ∀ n ∈ intsAt path records, FitsInt64 n := fun n hn => by
    obtain ⟨number, _, hnumber⟩ := List.mem_filterMap.1 hn
    exact fits_of_toInt64? hnumber
  rw [apply_eq_reduceInts (by simp) hints]
  exact reduceInts_sum hne hfits

theorem isInt_apply_sum_iff (hints : ∀ n ∈ numbersAt path records, n.toInt64? ≠ none)
    (hfound : numbersAt path records ≠ []) :
    (sum.apply records path).IsInt n ↔ n = heldSum (intsAt path records) := by
  rw [apply_sum hints hfound]
  exact isInt_ofIntClamped_iff (fits_heldSum _)

/-! ### Orders of the records -/

theorem numbersAt_perm (h : others.Perm records) (path : String) :
    (numbersAt path others).Perm (numbersAt path records) := h.filterMap _

theorem intsAt_perm (h : others.Perm records) (path : String) :
    (intsAt path others).Perm (intsAt path records) := (numbersAt_perm h path).filterMap _

/-- Any order of what is picked from a list comes from an order of the list. -/
theorem exists_perm_filterMap {α β : Type} {f : α → Option β} {picked : List β} {l : List α}
    (h : picked.Perm (l.filterMap f)) : ∃ l' : List α, l'.Perm l ∧ l'.filterMap f = picked := by
  induction l generalizing picked with
  | nil => exact ⟨[], .refl _, h.eq_nil.symm⟩
  | cons a l ih =>
    cases ha : f a with
    | none =>
      rw [List.filterMap_cons_none ha] at h
      obtain ⟨l', hperm, rfl⟩ := ih h
      exact ⟨a :: l', hperm.cons a, List.filterMap_cons_none ha⟩
    | some b =>
      rw [List.filterMap_cons_some ha] at h
      obtain ⟨before, after, rfl⟩ := List.append_of_mem (h.mem_iff.2 List.mem_cons_self)
      obtain ⟨l', hperm, hpicked⟩ := ih (List.perm_middle.symm.trans h).cons_inv
      obtain ⟨l₁, l₂, rfl, rfl, rfl⟩ := List.filterMap_eq_append_iff.1 hpicked
      refine ⟨l₁ ++ a :: l₂, List.perm_middle.trans (hperm.cons a), ?_⟩
      rw [List.filterMap_append, List.filterMap_cons_some ha]

/-- The integers of records can be brought into any order by an order of the records. -/
theorem exists_perm_intsAt (h : ints.Perm (intsAt path records)) :
    ∃ others, others.Perm records ∧ intsAt path others = ints := by
  obtain ⟨numbers, hnumbers, hints⟩ := exists_perm_filterMap h
  obtain ⟨others, hothers, rfl⟩ := exists_perm_filterMap hnumbers
  exact ⟨others, hothers, hints⟩

theorem isInt_apply_sum_of_perm_iff (hints : ∀ n ∈ numbersAt path records, n.toInt64? ≠ none)
    (hfound : numbersAt path records ≠ []) (hperm : others.Perm records) :
    (sum.apply others path).IsInt n ↔ n = heldSum (intsAt path others) := by
  have hnumbers := numbersAt_perm hperm path
  refine isInt_apply_sum_iff (fun n hn => hints n (hnumbers.mem_iff.1 hn)) fun hnone => hfound ?_
  exact (hnone ▸ hnumbers).nil_eq.symm

/-- **Sums of integers.** If all numbers found at a path are signed 64-bit integers, and some are
found, their sum is the integer held to that range after every addition. It is the exact sum if
every running total fits, and it is the exact sum in every order of the records exactly if the sum of
the integers that are not negative and the sum of the negative ones fit. -/
theorem sum_exact (hints : ∀ n ∈ numbersAt path records, n.toInt64? ≠ none)
    (hfound : numbersAt path records ≠ []) :
    (sum.apply records path).IsInt (heldSum (intsAt path records)) ∧
      ((∀ k, FitsInt64 ((intsAt path records).take k).sum) →
        (sum.apply records path).IsInt (intsAt path records).sum) ∧
      ((∀ others, others.Perm records →
          (sum.apply others path).IsInt (intsAt path records).sum) ↔
        FitsInt64 (gains (intsAt path records)).sum ∧
          FitsInt64 (losses (intsAt path records)).sum) := by
  refine ⟨(isInt_apply_sum_iff hints hfound).2 rfl, fun hfits => ?_, ?_⟩
  · exact (isInt_apply_sum_iff hints hfound).2 (heldSum_of_fits hfits).symm
  · rw [← heldSum_of_perm_iff]
    constructor
    · intro h ints hperm
      obtain ⟨others, hothers, rfl⟩ := exists_perm_intsAt hperm
      exact ((isInt_apply_sum_of_perm_iff hints hfound hothers).1 (h others hothers)).symm
    · intro h others hothers
      exact (isInt_apply_sum_of_perm_iff hints hfound hothers).2 (h _ (intsAt_perm hothers path)).symm

/-- Integers of both signs, among them a null and a missing field, have one sum in every order. -/
theorem sum_exact_of_both_signs :
    let records : List Value :=
      [.object [("v", .number (.ofIntClamped 0x7fffffffffffffff))], .object [("v", .null)],
        .object [("v", .number (.ofIntClamped (-7)))], .object []]
    (∀ n ∈ numbersAt "v" records, n.toInt64? ≠ none) ∧ numbersAt "v" records ≠ [] ∧
      ∀ others, others.Perm records → (sum.apply others "v").IsInt 0x7ffffffffffffff8 := by
  intro records
  have hints : ∀ n ∈ numbersAt "v" records, n.toInt64? ≠ none := by decide +kernel
  have hfound : numbersAt "v" records ≠ [] := by decide +kernel
  have htotal : (intsAt "v" records).sum = 0x7ffffffffffffff8 := by decide +kernel
  have hexact := (sum_exact hints hfound).2.2.2 (by decide +kernel)
  rw [htotal] at hexact
  exact ⟨hints, hfound, hexact⟩

/-- The sum of these integers fits, but not the sum of the first two, and so it is held back. -/
theorem sum_held_back :
    let records := [9223372036854775807, 1, -1].map fun n =>
      Value.object [("v", .number (.ofIntClamped n))]
    (∀ n ∈ numbersAt "v" records, n.toInt64? ≠ none) ∧ numbersAt "v" records ≠ [] ∧
      FitsInt64 (intsAt "v" records).sum ∧
      ¬ (sum.apply records "v").IsInt (intsAt "v" records).sum := by
  intro records
  have hints : ∀ n ∈ numbersAt "v" records, n.toInt64? ≠ none := by decide +kernel
  have hfound : numbersAt "v" records ≠ [] := by decide +kernel
  refine ⟨hints, hfound, by decide +kernel, fun hexact => ?_⟩
  have heq := (isInt_apply_sum_iff hints hfound).1 hexact
  revert heq
  decide +kernel

end Reduction

end RecordFlow
