import Mathlib.Data.List.Perm.Basic
import Mathlib.Data.List.ProdSigma
import RecordFlow.Proofs.Merge.Join

/-!
# Combinations up to order

But for their order, the combinations of two lists of rows are the pairs of rows with one key, the
right rows without a left row of their key, and the left rows without a right row of theirs
(`combinations_perm`). Nothing in that depends on which side is gathered and which is looked up.
-/

namespace RecordFlow.Merge

/-! ## Pairs -/

/-- The pairs that pass a test, taken up by their second parts. -/
theorem filter_product_perm {α β : Type} (p : α → β → Bool) (xs : List α) (ys : List β) :
    ((xs ×ˢ ys).filter fun q => p q.1 q.2).Perm
      (ys.flatMap fun y => (xs.filter (p · y)).map fun x => (x, y)) := by
  induction xs with
  | nil => simp
  | cons x xs ih =>
    have hhead : (ys.map fun y => (x, y)).filter (fun q => p q.1 q.2) =
        ys.flatMap fun y => if p x y then [(x, y)] else [] := by
      clear ih
      induction ys with
      | nil => rfl
      | cons y ys ih =>
        rw [List.map_cons, List.filter_cons, List.flatMap_cons, ih]
        cases p x y <;> rfl
    have hsplit : ∀ y, ((x :: xs).filter (p · y)).map (fun x => (x, y)) =
        (if p x y then [(x, y)] else []) ++ (xs.filter (p · y)).map fun x => (x, y) := by
      intro y
      rw [List.filter_cons]
      cases p x y <;> rfl
    rw [List.product_cons, List.filter_append, hhead]
    simp only [hsplit]
    exact (ih.append_left _).trans (List.flatMap_append_perm ys _ _)

section Matches

variable (lk rk : Value → Key) (left right : List Value)

/-- The pairs of a left and a right row with one key. -/
def matchedPairs : List (Value × Value) := (left ×ˢ right).filter fun q => lk q.1 = rk q.2

/-- The rows of one side whose key no row of the other side has. -/
def unmatched (key otherKey : Value → Key) (rows others : List Value) : List Value :=
  rows.filter fun row => ∀ other ∈ others, otherKey other ≠ key row

/-- Matched pairs are the same whichever side comes first. -/
theorem matchedPairs_swap :
    ((matchedPairs rk lk right left).map Prod.swap).Perm (matchedPairs lk rk left right) := by
  refine List.Perm.trans (.of_eq ?_)
    (filter_product_perm (fun l r => decide (lk l = rk r)) left right).symm
  unfold matchedPairs
  induction right with
  | nil => simp
  | cons row right ih =>
    rw [List.product_cons, List.filter_append, List.map_append, ih, List.flatMap_cons,
      List.filter_map, List.map_map]
    congr 2
    refine List.filter_congr fun l _ => ?_
    simp [eq_comm]

/-- A right row with its partners: pairs if it has any, and else the row alone. -/
theorem withPartners_eq (row : Value) :
    withPartners lk rk left row =
      ((left.filter (lk · = rk row)).map fun l => (some l, some row)) ++
        if ∀ l ∈ left, lk l ≠ rk row then [(none, some row)] else [] := by
  by_cases h : rk row ∈ keysOf lk left
  · obtain ⟨l, hl, hk⟩ := (mem_keysOf lk).1 h
    rw [withPartners_of_mem h, if_neg fun hall => hall l hl hk, List.append_nil]
  · have hnone : ∀ l ∈ left, lk l ≠ rk row := fun l hl hk => h ((mem_keysOf lk).2 ⟨l, hl, hk⟩)
    have hnil : left.filter (lk · = rk row) = [] := by
      rw [List.filter_eq_nil_iff]
      intro l hl
      simpa using hnone l hl
    rw [withPartners_of_not_mem h, if_pos hnone, hnil]
    rfl

/-- The right rows with their partners are the matched pairs and the unmatched right rows. -/
theorem flatMap_withPartners_perm :
    (right.flatMap (withPartners lk rk left)).Perm
      ((matchedPairs lk rk left right).map (fun q => (some q.1, some q.2)) ++
        (unmatched rk lk right left).map fun r => (none, some r)) := by
  have halone : (right.flatMap fun row =>
      if ∀ l ∈ left, lk l ≠ rk row then [((none, some row) : Combination)] else []) =
      (unmatched rk lk right left).map fun r => (none, some r) := by
    unfold unmatched
    induction right with
    | nil => rfl
    | cons row right ih =>
      rw [List.flatMap_cons, ih]
      by_cases h : ∀ l ∈ left, lk l ≠ rk row
      · rw [if_pos h, List.filter_cons_of_pos (by simpa using h)]
        rfl
      · rw [if_neg h, List.filter_cons_of_neg (by simpa using h)]
        rfl
  have hpairs := (filter_product_perm (fun l r => decide (lk l = rk r)) left right).map
    fun q => ((some q.1, some q.2) : Combination)
  rw [List.map_flatMap] at hpairs
  simp only [List.map_map] at hpairs
  rw [List.flatMap_congr fun row _ => withPartners_eq lk rk left row, ← halone]
  exact (List.flatMap_append_perm right _ _).symm.trans (hpairs.symm.append_right _)

/-- The left rows that come alone are the unmatched ones. -/
theorem alone_perm :
    (alone lk left ((keysOf lk left).filter fun k => k ∉ right.map rk)).Perm
      ((unmatched lk rk left right).map fun l => (some l, none)) := by
  have hrows : (unmatched lk rk left right) =
      left.filter fun l => decide (lk l ∉ right.map rk) := by
    refine List.filter_congr fun l _ => ?_
    simp
  have halone : alone lk left ((keysOf lk left).filter fun k => k ∉ right.map rk) =
      (((keysOf lk left).filter fun k => k ∉ right.map rk).flatMap fun k =>
        left.filter (lk · = k)).map fun l => (some l, none) := by
    rw [List.map_flatMap]
    rfl
  rw [hrows, halone]
  exact (flatMap_filter_filter_perm lk (fun k => decide (k ∉ right.map rk)) left).map _

/-- **Combinations up to order**: matched pairs, unmatched right rows and unmatched left rows. -/
theorem combinations_perm :
    (combinations lk rk left right).Perm
      ((matchedPairs lk rk left right).map (fun q => (some q.1, some q.2)) ++
        (unmatched rk lk right left).map (fun r => (none, some r)) ++
        (unmatched lk rk left right).map fun l => (some l, none)) :=
  (flatMap_withPartners_perm lk rk left right).append (alone_perm lk rk left right)

/-- The combinations of two lists are those of the lists exchanged, turned round. -/
theorem combinations_swap :
    ((combinations rk lk right left).map Prod.swap).Perm (combinations lk rk left right) := by
  have hpairs := (matchedPairs_swap lk rk left right).map
    fun q => ((some q.1, some q.2) : Combination)
  refine ((combinations_perm rk lk right left).map Prod.swap).trans ?_
  refine List.Perm.trans ?_ (combinations_perm lk rk left right).symm
  simp only [List.map_append, List.map_map, List.append_assoc] at hpairs ⊢
  exact hpairs.append List.perm_append_comm

end Matches

end RecordFlow.Merge
