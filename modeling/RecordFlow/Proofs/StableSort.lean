import RecordFlow.Proofs.Stage

/-!
# Stable sorting

A list is the stable sort of another if it has the same items, none of them after one that it comes
before, and items that compare equal in their old order (`StableSort`). Where comparing is a total
preorder, insertion gives the stable sort (`stableSort_sortBy`), and so does any other way of
sorting that is stable, since there is only one (`StableSort.unique`).
-/

namespace RecordFlow

variable {α : Type} {order : α → α → Ordering} {xs ys zs : List α} {x : α}

/-- Comparing the items of a list is a total preorder. -/
structure TotalPreorder (order : α → α → Ordering) (xs : List α) : Prop where
  /-- Compared the other way round, two items give the reverse. -/
  swap : ∀ x ∈ xs, ∀ y ∈ xs, order y x = (order x y).swap
  trans : ∀ x ∈ xs, ∀ y ∈ xs, ∀ z ∈ xs, order x y ≠ .gt → order y z ≠ .gt → order x z ≠ .gt

namespace TotalPreorder

theorem refl (h : TotalPreorder order xs) (hx : x ∈ xs) : order x x = .eq := by
  have hswap := h.swap x hx x hx
  cases hself : order x x <;> rw [hself] at hswap <;> first | rfl | cases hswap

theorem mono (h : TotalPreorder order xs) (hsub : ∀ y ∈ ys, y ∈ xs) : TotalPreorder order ys :=
  ⟨fun x hx y hy => h.swap x (hsub x hx) y (hsub y hy),
    fun x hx y hy z hz => h.trans x (hsub x hx) y (hsub y hy) z (hsub z hz)⟩

end TotalPreorder

/-- A list is the stable sort of another. -/
structure StableSort (order : α → α → Ordering) (xs ys : List α) : Prop where
  perm : ys.Perm xs
  sorted : ys.Pairwise fun y z => order y z ≠ .gt
  /-- Items that compare equal keep their order. -/
  stable : ∀ x ∈ xs, ys.filter (order x · == .eq) = xs.filter (order x · == .eq)

/-! ## There is one stable sort -/

/-- In a sorted list, the first item comes after none. -/
theorem order_head_ne_gt (h : TotalPreorder order (x :: xs))
    (hsorted : (x :: xs).Pairwise fun y z => order y z ≠ .gt) :
    ∀ y ∈ x :: xs, order x y ≠ .gt := by
  intro y hy
  rcases List.mem_cons.1 hy with rfl | hy
  · rw [h.refl List.mem_cons_self]
    decide
  · exact (List.pairwise_cons.1 hsorted).1 y hy

/-- The first items of two sorted lists of the same items compare equal. -/
theorem order_heads_eq {y z : α} (h : TotalPreorder order (y :: ys))
    (hperm : (z :: zs).Perm (y :: ys)) (hys : (y :: ys).Pairwise fun y z => order y z ≠ .gt)
    (hzs : (z :: zs).Pairwise fun y z => order y z ≠ .gt) : order y z = .eq := by
  have hz : z ∈ y :: ys := hperm.subset List.mem_cons_self
  have hy : y ∈ z :: zs := hperm.symm.subset List.mem_cons_self
  have hle := order_head_ne_gt h hys z hz
  have hge := order_head_ne_gt (h.mono fun w hw => hperm.subset hw) hzs y hy
  rw [h.swap y List.mem_cons_self z hz] at hge
  cases hcompare : order y z with
  | lt => exact absurd (by rw [hcompare]; rfl) hge
  | eq => rfl
  | gt => exact absurd hcompare hle

/-- Sorted lists of the same items are equal if items that compare equal stand in one order. -/
theorem eq_of_sorted_of_stable (h : TotalPreorder order ys) (hperm : zs.Perm ys)
    (hys : ys.Pairwise fun y z => order y z ≠ .gt) (hzs : zs.Pairwise fun y z => order y z ≠ .gt)
    (hstable : ∀ x ∈ ys, zs.filter (order x · == .eq) = ys.filter (order x · == .eq)) :
    zs = ys := by
  induction ys generalizing zs with
  | nil => exact List.perm_nil.1 hperm
  | cons y ys ih =>
    cases zs with
    | nil => exact absurd hperm.symm.eq_nil (List.cons_ne_nil y ys)
    | cons z zs =>
      -- both first items lead the same class of items that compare equal, so they are one item
      have hself : order y y = .eq := h.refl List.mem_cons_self
      have hyz : order y z = .eq := order_heads_eq h hperm hys hzs
      have hclass := hstable y List.mem_cons_self
      rw [List.filter_cons_of_pos (by simp [hyz]), List.filter_cons_of_pos (by simp [hself])]
        at hclass
      obtain ⟨rfl, -⟩ := List.cons_eq_cons.1 hclass
      refine congrArg (z :: ·) (ih (h.mono fun w hw => List.mem_cons_of_mem z hw) hperm.cons_inv
        hys.of_cons hzs.of_cons fun x hx => ?_)
      have hclass := hstable x (List.mem_cons_of_mem z hx)
      by_cases hxz : order x z = .eq
      · rw [List.filter_cons_of_pos (by simp [hxz]), List.filter_cons_of_pos (by simp [hxz])]
          at hclass
        exact (List.cons_eq_cons.1 hclass).2
      · rwa [List.filter_cons_of_neg (by simp [hxz]), List.filter_cons_of_neg (by simp [hxz])]
          at hclass

theorem StableSort.unique (h : TotalPreorder order xs) (hys : StableSort order xs ys)
    (hzs : StableSort order xs zs) : zs = ys := by
  refine eq_of_sorted_of_stable (h.mono fun y hy => hys.perm.subset hy)
    (hzs.perm.trans hys.perm.symm) hys.sorted hzs.sorted fun x hx => ?_
  have hx : x ∈ xs := hys.perm.subset hx
  exact (hzs.stable x hx).trans (hys.stable x hx).symm

/-! ## Sorting by insertion -/

/-- Sort items by insertion, as a comparison orders them. -/
def sortBy (order : α → α → Ordering) (xs : List α) : List α :=
  insertionSort (fun x y => order x y == .lt) xs

/-- An inserted item stops at the first that it does not come before. -/
theorem insertReversed_sorted (h : TotalPreorder order (x :: ys))
    (hys : ys.Pairwise fun y z => order z y ≠ .gt) :
    (insertReversed (fun x y => order x y == .lt) x ys).Pairwise fun y z => order z y ≠ .gt := by
  induction ys with
  | nil => exact List.pairwise_singleton _ x
  | cons y ys ih =>
    have hx : x ∈ x :: y :: ys := List.mem_cons_self
    have hy : y ∈ x :: y :: ys := List.mem_cons_of_mem x List.mem_cons_self
    have hsub : ∀ z ∈ x :: ys, z ∈ x :: y :: ys := by
      intro z hz
      rcases List.mem_cons.1 hz with rfl | hz
      · exact List.mem_cons_self
      · exact List.mem_cons_of_mem x (List.mem_cons_of_mem y hz)
    obtain ⟨hfirst, hrest⟩ := List.pairwise_cons.1 hys
    unfold insertReversed
    split_ifs with hbefore
    · refine List.pairwise_cons.2 ⟨fun z hz => ?_, ih (h.mono hsub) hrest⟩
      rcases List.mem_cons.1 ((insertReversed_perm _ x ys).subset hz) with rfl | hz
      · rw [eq_of_beq hbefore]
        decide
      · exact hfirst z hz
    · have hyx : order y x ≠ .gt := by
        rw [h.swap x hx y hy]
        cases hcompare : order x y with
        | lt => exact absurd (by rw [hcompare]; rfl) hbefore
        | eq => decide
        | gt => decide
      refine List.pairwise_cons.2 ⟨fun z hz => ?_, hys⟩
      rcases List.mem_cons.1 hz with rfl | hz
      · exact hyx
      · have hz' : z ∈ x :: y :: ys := List.mem_cons_of_mem x (List.mem_cons_of_mem y hz)
        exact h.trans z hz' y hy x hx (hfirst z hz) hyx

/-- Of two items of which one comes before the other, at most one compares equal to a third. -/
theorem order_ne_eq_of_lt (h : TotalPreorder order xs) {x y z : α} (hx : x ∈ xs) (hy : y ∈ xs)
    (hz : z ∈ xs) (hlt : order x y = .lt) (hzy : order z y = .eq) : order z x ≠ .eq := by
  intro hzx
  have hyz : order y z ≠ .gt := by
    rw [h.swap z hz y hy, hzy]
    decide
  have hyx : order y x ≠ .gt := h.trans y hy z hz x hx hyz (by rw [hzx]; decide)
  rw [h.swap x hx y hy, hlt] at hyx
  exact hyx rfl

/-- An inserted item passes no item that compares equal to it. -/
theorem filter_insertReversed (h : TotalPreorder order xs) {z : α} (hz : z ∈ xs) (hx : x ∈ xs)
    (hys : ∀ y ∈ ys, y ∈ xs) :
    (insertReversed (fun x y => order x y == .lt) x ys).filter (order z · == .eq) =
      (x :: ys).filter (order z · == .eq) := by
  induction ys with
  | nil => rfl
  | cons y ys ih =>
    have hy : y ∈ xs := hys y List.mem_cons_self
    have hrest := ih fun w hw => hys w (List.mem_cons_of_mem y hw)
    unfold insertReversed
    split_ifs with hbefore
    · by_cases hzy : order z y = .eq
      · have hzx : order z x ≠ .eq := order_ne_eq_of_lt h hx hy hz (eq_of_beq hbefore) hzy
        rw [List.filter_cons_of_pos (by simp [hzy]), hrest,
          List.filter_cons_of_neg (by simp [hzx]), List.filter_cons_of_neg (by simp [hzx]),
          List.filter_cons_of_pos (by simp [hzy])]
      · rw [List.filter_cons_of_neg (by simp [hzy]), hrest, List.filter_cons, List.filter_cons,
          List.filter_cons_of_neg (by simp [hzy])]
    · rfl

/-- Inserting items one after another keeps what is sorted sorted, and equal items in order. -/
theorem foldl_insertReversed (h : TotalPreorder order xs) (hys : ∀ y ∈ ys, y ∈ xs)
    (hzs : ∀ z ∈ zs, z ∈ xs) (hsorted : zs.Pairwise fun y z => order z y ≠ .gt) :
    let inserted := ys.foldl
      (fun sorted x => insertReversed (fun x y => order x y == .lt) x sorted) zs
    inserted.Pairwise (fun y z => order z y ≠ .gt) ∧
      ∀ z ∈ xs, inserted.filter (order z · == .eq) =
        (ys.filter (order z · == .eq)).reverse ++ zs.filter (order z · == .eq) := by
  induction ys generalizing zs with
  | nil => exact ⟨hsorted, fun z _ => rfl⟩
  | cons y ys ih =>
    have hy : y ∈ xs := hys y List.mem_cons_self
    have hcons : ∀ z ∈ y :: zs, z ∈ xs := List.forall_mem_cons.2 ⟨hy, hzs⟩
    have hinsert : ∀ z ∈ insertReversed (fun x y => order x y == .lt) y zs, z ∈ xs :=
      fun z hz => hcons z ((insertReversed_perm _ y zs).subset hz)
    obtain ⟨hpairwise, hfilter⟩ := ih (fun z hz => hys z (List.mem_cons_of_mem y hz)) hinsert
      (insertReversed_sorted (h.mono hcons) hsorted)
    refine ⟨hpairwise, fun z hz => (hfilter z hz).trans ?_⟩
    rw [filter_insertReversed h hz hy hzs, List.filter_cons, List.filter_cons]
    split_ifs
    · rw [List.reverse_cons, List.append_assoc, List.singleton_append]
    · rfl

/-- **Sorting by insertion is stable.** -/
theorem stableSort_sortBy (h : TotalPreorder order xs) : StableSort order xs (sortBy order xs) := by
  obtain ⟨hsorted, hfilter⟩ := foldl_insertReversed h (fun y hy => hy)
    (List.forall_mem_nil (· ∈ xs)) List.Pairwise.nil
  refine ⟨insertionSort_perm _ xs, List.pairwise_reverse.2 hsorted, fun x hx => ?_⟩
  unfold sortBy insertionSort
  rw [List.filter_reverse, hfilter x hx, List.filter_nil, List.append_nil, List.reverse_reverse]

section Map

variable {β : Type} (before : β → β → Bool) (f : α → β)

theorem insertReversed_map (x : α) (ys : List α) :
    insertReversed before (f x) (ys.map f) =
      (insertReversed (fun x y => before (f x) (f y)) x ys).map f := by
  induction ys with
  | nil => rfl
  | cons y ys ih =>
    rw [List.map_cons, insertReversed, insertReversed]
    split_ifs
    · rw [ih, List.map_cons]
    · rfl

/-- Items made of others are sorted as those are. -/
theorem insertionSort_map (xs : List α) :
    insertionSort before (xs.map f) =
      (insertionSort (fun x y => before (f x) (f y)) xs).map f := by
  have hfold : xs.foldl (fun sorted x => insertReversed before (f x) sorted) (List.map f []) =
      (xs.foldl (fun sorted x => insertReversed (fun x y => before (f x) (f y)) x sorted) []).map
        f :=
    List.foldl_hom (List.map f) fun sorted x => insertReversed_map before f x sorted
  unfold insertionSort
  rw [List.foldl_map, List.map_reverse, ← hfold]
  rfl

end Map

end RecordFlow
