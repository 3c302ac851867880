import RecordFlow.Proofs.Buckets

/-!
# Buckets after any insertions

However items get into buckets, one by one, several at once or from the start, the buckets depend on
the items and their order alone (`Buckets.FilledWith.eq_ofList`). Every way to ask for a bucket then
has its answer from these items, and a probe is combined with those of its key, pull by pull
(`Buckets.shows_insertion_history`).
-/

namespace RecordFlow

variable {α β π : Type} {keyOf : α → Key} {distinct : Bool} {xs : List α} {k : Key} {i : Nat}

/-! ## Items of a key -/

/-- The items of a key in order, or only the first of them. -/
def itemsOf (keyOf : α → Key) (distinct : Bool) (xs : List α) (k : Key) : List α :=
  if distinct then (xs.filter (keyOf · = k)).take 1 else xs.filter (keyOf · = k)

theorem filter_kept (k : Key) :
    (kept keyOf distinct xs).filter (keyOf · = k) = itemsOf keyOf distinct xs k := by
  cases distinct
  · rfl
  · exact filter_firsts keyOf k xs

theorem itemsOf_ne_nil (hk : k ∈ keysOf keyOf xs) : itemsOf keyOf distinct xs k ≠ [] := by
  obtain ⟨x, hx, rfl⟩ := (mem_keysOf keyOf).1 hk
  have hne : xs.filter (keyOf · = keyOf x) ≠ [] :=
    List.ne_nil_of_mem (List.mem_filter.2 ⟨hx, by simp⟩)
  unfold itemsOf
  cases distinct
  · exact hne
  · simpa using hne

theorem keysOf_eq_nil_iff (keyOf : α → Key) : keysOf keyOf xs = [] ↔ xs = [] := by
  cases xs with
  | nil => exact iff_of_true rfl rfl
  | cons x xs =>
    rw [keysOf_cons]
    exact iff_of_false nofun nofun

/-- A key that is there once has one position. -/
theorem findIdx?_eq_some_iff_of_nodup {ks : List Key} (hks : ks.Nodup) :
    ks.findIdx? (· == k) = some i ↔ ks[i]? = some k := by
  rw [List.findIdx?_eq_some_iff_getElem, List.getElem?_eq_some_iff]
  constructor
  · rintro ⟨hi, hk, -⟩
    exact ⟨hi, by simpa using hk⟩
  · rintro ⟨hi, rfl⟩
    refine ⟨hi, by simp, fun j hj => ?_⟩
    have hne : ks[j] ≠ ks[i] := fun heq => Nat.ne_of_lt hj ((hks.getElem_inj_iff).1 heq)
    simpa using hne

namespace Buckets

variable {b : Buckets α}

/-! ## Filling -/

/-- Buckets are filled with items by any insertions, one after the other. -/
inductive FilledWith (keyOf : α → Key) (distinct : Bool) : List α → Buckets α → Prop where
  | empty : FilledWith keyOf distinct [] (.empty keyOf distinct)
  | ofList (xs : List α) : FilledWith keyOf distinct xs (.ofList keyOf distinct xs)
  | add {xs : List α} {b : Buckets α} (h : FilledWith keyOf distinct xs b) (x : α) :
    FilledWith keyOf distinct (xs ++ [x]) (b.add x).2
  | insertAll {xs : List α} {b : Buckets α} (h : FilledWith keyOf distinct xs b) (ys : List α) :
    FilledWith keyOf distinct (xs ++ ys) (b.insertAll ys)

theorem insertAll_ofList (keyOf : α → Key) (distinct : Bool) (xs ys : List α) :
    (ofList keyOf distinct xs).insertAll ys = ofList keyOf distinct (xs ++ ys) :=
  List.foldl_append.symm

theorem FilledWith.eq_ofList (h : FilledWith keyOf distinct xs b) :
    b = .ofList keyOf distinct xs := by
  induction h with
  | empty => rfl
  | ofList xs => rfl
  | add _ x ih =>
    rw [ih]
    exact insertAll_ofList keyOf distinct _ [x]
  | insertAll _ ys ih =>
    rw [ih]
    exact insertAll_ofList keyOf distinct _ ys

/-! ## Pulling combinations -/

namespace Crossing

/-- The combinations that are still to come. -/
def remaining (c : Crossing α π β) : List β :=
  match c.bucket with
  | some xs => xs.map fun x => c.combine (some x) c.probe
  | none => if c.unmatched then [c.combine none c.probe] else []

/-- What is left after some pulls. -/
def after : Nat → Crossing α π β → Crossing α π β
  | 0, c => c
  | n + 1, c => after n c.pull.2

variable (c : Crossing α π β)

/-- A pull delivers the first combination to come and leaves the others. -/
theorem pull_eq : c.pull.1 = c.remaining.head? ∧ c.pull.2.remaining = c.remaining.tail := by
  unfold pull remaining
  cases hb : c.bucket with
  | some xs => cases xs <;> simp [hb]
  | none => cases hu : c.unmatched <;> simp [hb, hu]

theorem remaining_after (n : Nat) : (c.after n).remaining = c.remaining.drop n := by
  induction n generalizing c with
  | zero => rfl
  | succ n ih => rw [after, ih, c.pull_eq.2, List.drop_tail]

/-- The pulls deliver the combinations in order, and nothing more. -/
theorem pull_after (n : Nat) : (c.after n).pull.1 = c.remaining[n]? := by
  rw [(c.after n).pull_eq.1, remaining_after, List.head?_drop]

end Crossing

theorem remaining_crossing (b : Buckets α) (probe : π) (probeKey : π → Key)
    (combine : Option α → π → β) :
    (b.crossing probe probeKey combine).remaining = b.cross probe probeKey combine := by
  unfold Crossing.remaining crossing cross
  cases b.bucket? (probeKey probe) <;> rfl

/-! ## Asking -/

/-- Buckets show which items were inserted and in which order, in whatever way they are asked. -/
structure Shows (keyOf : α → Key) (distinct : Bool) (xs : List α) (b : Buckets α) : Prop where
  /-- Every key has one bucket, by first appearance, with its items. -/
  toList_eq : b.toList = (keysOf keyOf xs).map (itemsOf keyOf distinct xs)
  ne_nil : ∀ bucket ∈ b.toList, bucket ≠ []
  size_eq : b.size = (keysOf keyOf xs).length
  isEmpty_iff : b.isEmpty = true ↔ xs = []
  itemCount_eq : b.itemCount = b.toList.foldl (fun n bucket => n + bucket.length) 0
  /-- A key is new if no item before has it. -/
  new_iff : ∀ x, (b.add x).1 = true ↔ ∀ y ∈ xs, keyOf y ≠ keyOf x
  contains_iff : ∀ k, b.contains k = true ↔ ∃ x ∈ xs, keyOf x = k
  bucket?_eq : ∀ k, b.bucket? k =
    if k ∈ keysOf keyOf xs then some (itemsOf keyOf distinct xs k) else none
  index?_iff : ∀ (k : Key) (i : Nat), b.index? k = some i ↔ (keysOf keyOf xs)[i]? = some k
  bucketAt?_eq : ∀ i : Nat, b.bucketAt? i = b.toList[i]?
  bucketAt?_index? : ∀ k, (b.index? k).bind b.bucketAt? = b.bucket? k
  enumerate_eq : ∀ i : Nat, b.enumerate[i]? = b.toList[i]?.map fun bucket => (i, bucket)
  /-- The combinations of a probe come one with every pull, and then nothing more. -/
  pulled_eq : ∀ {π β : Type} (probe : π) (probeKey : π → Key) (combine : Option α → π → β)
    (n : Nat),
    ((b.crossing probe probeKey combine).after n).pull.1 =
      (if probeKey probe ∈ keysOf keyOf xs then
        (itemsOf keyOf distinct xs (probeKey probe)).map fun x => combine (some x) probe
      else [combine none probe])[n]?

theorem contains_eq_isSome (b : Buckets α) (k : Key) : b.contains k = (b.bucket? k).isSome := by
  unfold contains bucket?
  rw [Option.isSome_map, List.isSome_find?]

theorem foldl_add_length (buckets : List (List α)) (n : Nat) :
    buckets.foldl (fun n bucket => n + bucket.length) n = n + buckets.flatten.length := by
  induction buckets generalizing n with
  | nil => rfl
  | cons bucket buckets ih =>
    rw [List.foldl_cons, ih, List.flatten_cons, List.length_append, Nat.add_assoc]

theorem itemCount_eq_foldl (b : Buckets α) :
    b.itemCount = b.toList.foldl (fun n bucket => n + bucket.length) 0 := by
  rw [foldl_add_length, Nat.zero_add]
  rfl

theorem bucketAt?_eq_toList (b : Buckets α) (i : Nat) : b.bucketAt? i = b.toList[i]? :=
  List.getElem?_map.symm

theorem getElem?_enumerate (b : Buckets α) (i : Nat) :
    b.enumerate[i]? = b.toList[i]?.map fun bucket => (i, bucket) := by
  unfold enumerate
  rw [List.getElem?_map, List.getElem?_zipIdx, Option.map_map, Nat.zero_add]
  rfl

theorem bucketAt?_index?_ofList (k : Key) :
    ((ofList keyOf distinct xs).index? k).bind (ofList keyOf distinct xs).bucketAt? =
      (ofList keyOf distinct xs).bucket? k := by
  rw [index?_ofList, bucket?_ofList]
  split_ifs with hk
  · obtain ⟨i, hi⟩ := List.mem_iff_getElem?.1 hk
    rw [(findIdx?_eq_some_iff_of_nodup (nodup_keysOf keyOf xs)).2 hi, Option.bind_some,
      bucketAt?_ofList, hi]
    rfl
  · have hnone : (keysOf keyOf xs).findIdx? (· == k) = none := by
      rw [List.findIdx?_eq_none_iff]
      intro j hj
      simpa using fun heq : j = k => hk (heq ▸ hj)
    rw [hnone]
    rfl

/-- **Buckets are their insertion history.** Buckets filled by any insertions show the items
inserted and their order. -/
theorem shows_insertion_history (h : FilledWith keyOf distinct xs b) :
    Shows keyOf distinct xs b := by
  have hlist : b.toList = (keysOf keyOf xs).map (itemsOf keyOf distinct xs) := by
    rw [h.eq_ofList, toList_ofList]
    exact List.map_congr_left fun k _ => filter_kept k
  have hbucket : ∀ k, b.bucket? k =
      if k ∈ keysOf keyOf xs then some (itemsOf keyOf distinct xs k) else none := by
    intro k
    rw [h.eq_ofList, bucket?_ofList, filter_kept]
  have hcontains : ∀ k, b.contains k = true ↔ ∃ x ∈ xs, keyOf x = k := by
    intro k
    rw [contains_eq_isSome, hbucket, ← mem_keysOf]
    split_ifs with hk <;> simp [hk]
  refine
    { toList_eq := hlist
      ne_nil := ?_
      size_eq := by rw [h.eq_ofList, size_ofList]
      isEmpty_iff := ?_
      itemCount_eq := itemCount_eq_foldl b
      new_iff := fun x => ?_
      contains_iff := hcontains
      bucket?_eq := hbucket
      index?_iff := fun k i => ?_
      bucketAt?_eq := bucketAt?_eq_toList b
      bucketAt?_index? := fun k => ?_
      enumerate_eq := getElem?_enumerate b
      pulled_eq := fun probe probeKey combine n => ?_ }
  · intro bucket hmem
    rw [hlist] at hmem
    obtain ⟨k, hk, rfl⟩ := List.mem_map.1 hmem
    exact itemsOf_ne_nil hk
  · rw [h.eq_ofList, ofList_eq, ← keysOf_eq_nil_iff keyOf]
    simp [isEmpty, history]
  · have hkey : b.keyOf = keyOf := by rw [h.eq_ofList, ofList_eq]
    have hnew : (b.add x).1 = !b.contains (keyOf x) := by rw [← hkey]; rfl
    rw [hnew, Bool.not_eq_true', ← Bool.not_eq_true, hcontains]
    simp
  · rw [h.eq_ofList, index?_ofList]
    exact findIdx?_eq_some_iff_of_nodup (nodup_keysOf keyOf xs)
  · rw [h.eq_ofList]
    exact bucketAt?_index?_ofList k
  · rw [Crossing.pull_after, remaining_crossing]
    unfold cross
    rw [hbucket]
    split_ifs <;> rfl

/-- One item, then several, of which the last has a key that is there. -/
theorem shows_insertion_history_of_distinct :
    let keyOf : String × Nat → Key := fun x => .string x.1
    let b := ((empty keyOf true).add ("a", 1)).2.insertAll [("b", 2), ("a", 3)]
    let crossing := b.crossing "a" .string fun stored probe => (stored, probe)
    FilledWith keyOf true [("a", 1), ("b", 2), ("a", 3)] b ∧
      b.toList = [[("a", 1)], [("b", 2)]] ∧ (b.add ("b", 4)).1 ≠ true ∧
      crossing.pull.1 = some (some ("a", 1), "a") ∧ (crossing.after 1).pull.1 = none := by
  intro keyOf b crossing
  have hb : FilledWith keyOf true [("a", 1), ("b", 2), ("a", 3)] b :=
    (FilledWith.empty.add ("a", 1)).insertAll [("b", 2), ("a", 3)]
  have hshows := shows_insertion_history hb
  have hpulled := hshows.pulled_eq "a" .string fun stored probe => (stored, probe)
  refine ⟨hb, hshows.toList_eq.trans rfl, fun hnew => ?_, (hpulled 0).trans rfl,
    (hpulled 1).trans rfl⟩
  exact (hshows.new_iff ("b", 4)).1 hnew ("b", 2) (by simp) rfl

end Buckets

end RecordFlow
