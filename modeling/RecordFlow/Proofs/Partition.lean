import RecordFlow.Proofs.Buckets

/-!
# Stable partitions

Splitting a list by a key gives one bucket for each key, in the order in which the keys first occur,
with the items of that key in their order (`bucketsOf`). One after another the buckets hold every
item of the list once, and items of one key stand together (`stablePartition_bucketsOf`). Splitting
every bucket again by a second key gives the buckets of both keys (`flatMap_bucketsOf_perm`), and a
list in which items of one key stand together is its buckets in a row (`flatten_bucketsOf`).
-/

namespace RecordFlow

variable {α : Type} (key : α → Key)

/-- The items of each key, by first appearance of the keys. -/
def bucketsOf (xs : List α) : List (List α) := (keysOf key xs).map fun k => xs.filter (key · = k)

/-- A list is split into buckets by a key, and the items of a bucket keep their order. -/
structure StablePartition (xs : List α) (buckets : List (List α)) : Prop where
  /-- Nothing is lost or doubled. -/
  perm : buckets.flatten.Perm xs
  ne_nil : ∀ bucket ∈ buckets, bucket ≠ []
  /-- A bucket holds all items of the key of any item in it, in order. -/
  eq_filter : ∀ bucket ∈ buckets, ∀ x ∈ bucket, bucket = xs.filter (key · = key x)
  /-- No two buckets have a key in common. -/
  keys_differ : buckets.Pairwise fun b c => ∀ x ∈ b, ∀ y ∈ c, key x ≠ key y
  /-- Every key has its bucket, which stands where the first item of that key calls for it. -/
  heads : buckets.filterMap List.head? = firsts key xs
  /-- Between two items of one key there are only items of that key. -/
  contiguous : ∀ x y z, [x, y, z].Sublist buckets.flatten → key x = key z → key y = key x

variable {key} {xs : List α} {buckets : List (List α)}

theorem mem_bucketsOf {bucket : List α} :
    bucket ∈ bucketsOf key xs ↔ ∃ x ∈ xs, bucket = xs.filter (key · = key x) := by
  unfold bucketsOf
  rw [List.mem_map]
  constructor
  · rintro ⟨k, hk, rfl⟩
    obtain ⟨x, hx, rfl⟩ := (mem_keysOf key).1 hk
    exact ⟨x, hx, rfl⟩
  · rintro ⟨x, hx, rfl⟩
    exact ⟨key x, (mem_keysOf key).2 ⟨x, hx, rfl⟩, rfl⟩

/-- Buckets of one key each, no two of the same, keep the items of a key together. -/
theorem contiguous_flatten (hone : ∀ bucket ∈ buckets, ∀ x ∈ bucket, ∀ y ∈ bucket, key x = key y)
    (hdiffer : buckets.Pairwise fun b c => ∀ x ∈ b, ∀ y ∈ c, key x ≠ key y) {x y z : α}
    (h : [x, y, z].Sublist buckets.flatten) (hkey : key x = key z) : key y = key x := by
  induction buckets with
  | nil => cases h
  | cons b buckets ih =>
    obtain ⟨hfirst, hrest⟩ := List.pairwise_cons.1 hdiffer
    have hsame := hone b List.mem_cons_self
    have hapart : ∀ x ∈ b, ∀ y ∈ buckets.flatten, key x ≠ key y := by
      intro x hx y hy
      obtain ⟨c, hc, hy⟩ := List.mem_flatten.1 hy
      exact hfirst c hc x hx y hy
    rw [List.flatten_cons] at h
    obtain ⟨inside, after, hsplit, hinside, hafter⟩ := List.sublist_append_iff.1 h
    -- the three items are all in the first bucket, or all after it, or else the outer two differ
    match inside, hsplit with
    | [], hsplit =>
      rw [List.nil_append] at hsplit
      subst hsplit
      exact ih (fun c hc => hone c (List.mem_cons_of_mem b hc)) hrest hafter
    | [x, y, z], hsplit =>
      cases hsplit
      exact hsame y (hinside.subset (by simp)) x (hinside.subset (by simp))
    | [x], hsplit =>
      cases hsplit
      exact absurd hkey (hapart x (hinside.subset (by simp)) z (hafter.subset (by simp)))
    | [x, y], hsplit =>
      cases hsplit
      exact hsame y (hinside.subset (by simp)) x (hinside.subset (by simp))

/-- **Splitting by a key is a stable partition.** -/
theorem stablePartition_bucketsOf (key : α → Key) (xs : List α) :
    StablePartition key xs (bucketsOf key xs) := by
  have hitem : ∀ bucket ∈ bucketsOf key xs, ∀ x ∈ bucket, bucket = xs.filter (key · = key x) := by
    intro bucket hbucket x hx
    obtain ⟨y, -, rfl⟩ := mem_bucketsOf.1 hbucket
    rw [of_decide_eq_true (List.mem_filter.1 hx).2]
  have hdiffer : (bucketsOf key xs).Pairwise fun b c => ∀ x ∈ b, ∀ y ∈ c, key x ≠ key y := by
    unfold bucketsOf
    rw [List.pairwise_map]
    refine (nodup_keysOf key xs).imp fun {j k} hne x hx y hy hkey => hne ?_
    rw [← of_decide_eq_true (List.mem_filter.1 hx).2, hkey,
      of_decide_eq_true (List.mem_filter.1 hy).2]
  refine ⟨?_, ?_, hitem, hdiffer, ?_, fun x y z => contiguous_flatten ?_ hdiffer⟩
  · exact flatMap_filter_perm key xs
  · intro bucket hbucket
    obtain ⟨x, hx, rfl⟩ := mem_bucketsOf.1 hbucket
    exact List.ne_nil_of_mem (List.mem_filter.2 ⟨hx, by simp⟩)
  · rw [← filterMap_head?_firsts, bucketsOf, List.filterMap_map]
    refine List.filterMap_congr fun k _ => ?_
    rw [filter_firsts, List.head?_take, if_neg Nat.one_ne_zero]
    rfl
  · intro bucket hbucket x hx y hy
    rw [hitem bucket hbucket y hy] at hx
    exact of_decide_eq_true (List.mem_filter.1 hx).2

/-! ## Partitions of partitions -/

/-- Buckets without a key in common are different. -/
theorem StablePartition.nodup (h : StablePartition key xs buckets) : buckets.Nodup := by
  refine h.keys_differ.imp_of_mem fun {b c} hb _ hdiffer heq => ?_
  obtain ⟨x, hx⟩ := List.exists_mem_of_ne_nil b (h.ne_nil b hb)
  exact hdiffer x hx x (heq ▸ hx) rfl

theorem nodup_bucketsOf (key : α → Key) (xs : List α) : (bucketsOf key xs).Nodup :=
  (stablePartition_bucketsOf key xs).nodup

theorem nodup_flatMap_bucketsOf (outer inner : α → Key) (xs : List α) :
    ((bucketsOf outer xs).flatMap (bucketsOf inner)).Nodup := by
  refine List.nodup_flatMap.2 ⟨fun bucket _ => nodup_bucketsOf inner bucket, ?_⟩
  refine (stablePartition_bucketsOf outer xs).keys_differ.imp fun {b c} hdiffer => ?_
  intro part hb hc
  have hparts := stablePartition_bucketsOf inner b
  obtain ⟨x, hx⟩ := List.exists_mem_of_ne_nil part (hparts.ne_nil part hb)
  have hxb : x ∈ b := hparts.perm.subset (List.mem_flatten_of_mem hb hx)
  have hxc : x ∈ c :=
    (stablePartition_bucketsOf inner c).perm.subset (List.mem_flatten_of_mem hc hx)
  exact hdiffer x hxb x hxc rfl

/-- **Splitting by two keys in turn.** Buckets that are split again are the buckets of a key that is
the same for two items exactly if both keys are. -/
theorem flatMap_bucketsOf_perm {outer inner both : α → Key}
    (hboth : ∀ x y, both x = both y ↔ outer x = outer y ∧ inner x = inner y) (xs : List α) :
    ((bucketsOf outer xs).flatMap (bucketsOf inner)).Perm (bucketsOf both xs) := by
  have hfilter : ∀ x, (xs.filter (outer · = outer x)).filter (inner · = inner x) =
      xs.filter (both · = both x) := by
    intro x
    rw [List.filter_filter]
    refine List.filter_congr fun y _ => ?_
    rw [← Bool.decide_and, decide_eq_decide, hboth, and_comm]
  refine (List.perm_ext_iff_of_nodup (nodup_flatMap_bucketsOf outer inner xs)
    (nodup_bucketsOf both xs)).2 fun part => ?_
  rw [List.mem_flatMap, mem_bucketsOf]
  constructor
  · rintro ⟨bucket, hbucket, hpart⟩
    obtain ⟨x, -, rfl⟩ := mem_bucketsOf.1 hbucket
    obtain ⟨y, hy, rfl⟩ := mem_bucketsOf.1 hpart
    obtain ⟨hy, hyx⟩ := List.mem_filter.1 hy
    rw [← of_decide_eq_true hyx]
    exact ⟨y, hy, hfilter y⟩
  · rintro ⟨x, hx, rfl⟩
    refine ⟨xs.filter (outer · = outer x), mem_bucketsOf.2 ⟨x, hx, rfl⟩, mem_bucketsOf.2 ⟨x, ?_, ?_⟩⟩
    · exact List.mem_filter.2 ⟨hx, by simp⟩
    · exact (hfilter x).symm

/-! ## Lists that keep keys together -/

@[simp] theorem bucketsOf_nil : bucketsOf key [] = [] := rfl

theorem bucketsOf_cons (x : α) (xs : List α) :
    bucketsOf key (x :: xs) =
      (x :: xs.filter (key · = key x)) :: bucketsOf key (xs.filter fun y => key y ≠ key x) := by
  unfold bucketsOf
  rw [keysOf_cons, List.map_cons, List.filter_cons_of_pos (by simp),
    List.map_congr_left fun k => filter_of_later_key key]

/-- Items of one key as the first one come right after it, if keys stand together. -/
theorem filter_append_filter_of_contiguous {x : α}
    (h : ∀ y z, [y, z].Sublist xs → key z = key x → key y = key x) :
    xs.filter (key · = key x) ++ xs.filter (fun y => key y ≠ key x) = xs := by
  induction xs with
  | nil => rfl
  | cons y xs ih =>
    have hrest := ih fun z w hsub => h z w (hsub.cons y)
    by_cases hy : key y = key x
    · rw [List.filter_cons_of_pos (by simpa using hy), List.filter_cons_of_neg (by simpa using hy),
        List.cons_append, hrest]
    · have hdiffer : ∀ z ∈ xs, key z ≠ key x := fun z hz hkey =>
        hy (h y z (List.cons_sublist_cons.2 (List.singleton_sublist.2 hz)) hkey)
      rw [List.filter_cons_of_neg (by simpa using hy), List.filter_cons_of_pos (by simpa using hy),
        List.filter_eq_nil_iff.2 (by simpa using hdiffer),
        List.filter_eq_self.2 (by simpa using hdiffer), List.nil_append]

/-- **Lists that keep keys together** are their buckets in a row. -/
theorem flatten_bucketsOf {xs : List α}
    (h : ∀ x y z, [x, y, z].Sublist xs → key x = key z → key y = key x) :
    (bucketsOf key xs).flatten = xs := by
  match xs with
  | [] => rfl
  | x :: xs =>
    have hlt : (xs.filter fun y => key y ≠ key x).length < (x :: xs).length :=
      Nat.lt_succ_of_le (List.length_filter_le _ _)
    have hrest : (bucketsOf key (xs.filter fun y => key y ≠ key x)).flatten =
        xs.filter fun y => key y ≠ key x :=
      flatten_bucketsOf fun u v w hsub => h u v w ((hsub.trans List.filter_sublist).cons x)
    have hsplit : xs.filter (key · = key x) ++ xs.filter (fun y => key y ≠ key x) = xs :=
      filter_append_filter_of_contiguous fun y z hsub hkey =>
        h x y z (List.cons_sublist_cons.2 hsub) hkey.symm
    rw [bucketsOf_cons, List.flatten_cons, hrest, List.cons_append, hsplit]
termination_by xs.length
decreasing_by simpa using hlt

/-- Lists that have the same items of every key, in the same order, have the same buckets. -/
theorem bucketsOf_perm {ys : List α} (hperm : ys.Perm xs)
    (hfilter : ∀ x ∈ xs, ys.filter (key · = key x) = xs.filter (key · = key x)) :
    (bucketsOf key ys).Perm (bucketsOf key xs) := by
  refine (List.perm_ext_iff_of_nodup (nodup_bucketsOf key ys) (nodup_bucketsOf key xs)).2
    fun bucket => ?_
  rw [mem_bucketsOf, mem_bucketsOf]
  constructor
  · rintro ⟨x, hx, rfl⟩
    have hx := hperm.subset hx
    exact ⟨x, hx, hfilter x hx⟩
  · rintro ⟨x, hx, rfl⟩
    exact ⟨x, hperm.symm.subset hx, (hfilter x hx).symm⟩

end RecordFlow
