import RecordFlow.Buckets
import Mathlib.Data.List.Induction
import Mathlib.Data.List.Nodup

/-!
# Buckets as insertion history

The buckets that a list of items ends up in can be read off the list: one for each key, in the order
in which the keys first occur, with the items of that key in order, or only the first of them
(`Buckets.entries_ofList`). Keeping the first item of each key is a list function (`firsts`), and a
distinct index of some items is the full index of the first items of each key.
-/

namespace RecordFlow

variable {α : Type}

/-! ## The first item of each key -/

section Firsts

variable (key : α → Key)

/-- The items whose key no item before them has. -/
def firsts (xs : List α) : List α := xs.eraseDupsBy fun x y => key x == key y

/-- The keys of a list, in the order in which they first occur. -/
def keysOf (xs : List α) : List Key := (xs.map key).eraseDups

@[simp] theorem firsts_nil : firsts key [] = [] := rfl

@[simp] theorem keysOf_nil : keysOf key [] = [] := rfl

theorem firsts_cons (x : α) (xs : List α) :
    firsts key (x :: xs) = x :: firsts key (xs.filter fun y => key y ≠ key x) := by
  unfold firsts
  rw [List.eraseDupsBy_cons]
  congr 3
  funext y
  by_cases h : key y = key x <;> simp [h]

/-- Items enter one by one: an item is kept if its key is new. -/
theorem firsts_concat (xs : List α) (x : α) :
    firsts key (xs ++ [x]) =
      if key x ∈ xs.map key then firsts key xs else firsts key xs ++ [x] := by
  match xs with
  | [] => simp [firsts_cons]
  | y :: ys =>
    have hlt : (ys.filter fun z => key z ≠ key y).length < (y :: ys).length :=
      Nat.lt_succ_of_le (List.length_filter_le _ _)
    rw [List.cons_append, firsts_cons, firsts_cons, List.filter_append]
    by_cases hxy : key x = key y
    · simp [hxy]
    · have hmem : key x ∈ (ys.filter fun z => key z ≠ key y).map key ↔
          key x ∈ (y :: ys).map key := by
        simp only [List.mem_map, List.mem_filter, List.mem_cons]
        grind
      rw [List.filter_cons_of_pos (by simp [hxy]), List.filter_nil, firsts_concat]
      simp only [hmem]
      split_ifs <;> rfl
termination_by xs.length
decreasing_by simpa using hlt

theorem firsts_sublist (xs : List α) : (firsts key xs).Sublist xs := by
  induction xs using List.reverseRecOn with
  | nil => exact List.Sublist.refl _
  | append_singleton xs x ih =>
    rw [firsts_concat]
    split_ifs
    · exact ih.trans (List.sublist_append_left xs [x])
    · exact ih.append (List.Sublist.refl [x])

theorem keysOf_eq_firsts (xs : List α) : keysOf key xs = firsts id (xs.map key) := rfl

theorem keysOf_concat (xs : List α) (x : α) :
    keysOf key (xs ++ [x]) =
      if key x ∈ xs.map key then keysOf key xs else keysOf key xs ++ [key x] := by
  simp only [keysOf_eq_firsts, List.map_append, List.map_cons, List.map_nil, firsts_concat,
    List.map_id, id]

@[simp] theorem mem_keysOf {k : Key} {xs : List α} : k ∈ keysOf key xs ↔ ∃ x ∈ xs, key x = k := by
  simp [keysOf]

theorem nodup_keysOf (xs : List α) : (keysOf key xs).Nodup := by
  induction xs using List.reverseRecOn with
  | nil => exact List.nodup_nil
  | append_singleton xs x ih =>
    rw [keysOf_concat]
    split_ifs with h
    · exact ih
    · rw [← List.concat_eq_append, List.nodup_concat]
      exact ⟨by simpa using h, ih⟩

/-- Every key has one first item, in the order of the keys. -/
@[simp] theorem map_firsts (xs : List α) : (firsts key xs).map key = keysOf key xs := by
  induction xs using List.reverseRecOn with
  | nil => rfl
  | append_singleton xs x ih =>
    rw [firsts_concat, keysOf_concat]
    split_ifs
    · exact ih
    · rw [List.map_append, ih, List.map_cons, List.map_nil]

@[simp] theorem keysOf_firsts (xs : List α) : keysOf key (firsts key xs) = keysOf key xs := by
  induction xs using List.reverseRecOn with
  | nil => rfl
  | append_singleton xs x ih =>
    rw [firsts_concat, keysOf_concat]
    split_ifs with h
    · exact ih
    · rw [keysOf_concat, map_firsts, if_neg (by simpa using h), ih]

/-- The first item of each key is the only one of its key. -/
theorem filter_firsts (k : Key) (xs : List α) :
    (firsts key xs).filter (key · = k) = (xs.filter (key · = k)).take 1 := by
  induction xs using List.reverseRecOn with
  | nil => rfl
  | append_singleton xs x ih =>
    rw [firsts_concat, List.filter_append]
    by_cases hk : key x = k
    · rw [List.filter_cons_of_pos (by simpa using hk), List.filter_nil]
      split_ifs with h
      · have hne : xs.filter (key · = k) ≠ [] := by
          obtain ⟨y, hy, hyk⟩ := List.mem_map.1 h
          exact List.ne_nil_of_mem (List.mem_filter.2 ⟨hy, by simp [hyk, hk]⟩)
        rw [ih, List.take_append_of_le_length (List.length_pos_iff.2 hne)]
      · have hnil : xs.filter (key · = k) = [] := by
          rw [List.filter_eq_nil_iff]
          intro y hy hyk
          exact h (List.mem_map.2 ⟨y, hy, (by simpa using hyk : key y = k).trans hk.symm⟩)
        rw [List.filter_append, ih, hnil, List.filter_cons_of_pos (by simpa using hk)]
        rfl
    · rw [List.filter_cons_of_neg (by simpa using hk), List.filter_nil, List.append_nil]
      split_ifs
      · exact ih
      · rw [List.filter_append, List.filter_cons_of_neg (by simpa using hk), List.filter_nil,
          List.append_nil, ih]

/-- Every key has its first item. -/
theorem filterMap_head?_firsts (xs : List α) :
    ((keysOf key xs).filterMap fun k => ((firsts key xs).filter (key · = k)).head?) =
      firsts key xs := by
  have hhead : ∀ x ∈ firsts key xs,
      ((firsts key xs).filter (key · = key x)).head? = some x := by
    intro x hx
    have hmem : x ∈ (firsts key xs).filter (key · = key x) :=
      List.mem_filter.2 ⟨hx, by simp⟩
    rw [filter_firsts, List.take_one, Option.mem_toList] at hmem
    rw [filter_firsts, List.head?_take, if_neg Nat.one_ne_zero]
    exact hmem
  rw [← map_firsts, List.filterMap_map]
  exact (List.filterMap_congr hhead).trans List.filterMap_some

/-- Items made of others have the keys that those have. -/
theorem firsts_map {β : Type} (keyOf : β → Key) (f : α → β) (xs : List α) :
    firsts keyOf (xs.map f) = (firsts (fun x => keyOf (f x)) xs).map f := by
  induction xs using List.reverseRecOn with
  | nil => rfl
  | append_singleton xs x ih =>
    rw [List.map_append, List.map_singleton, firsts_concat, firsts_concat, ih, List.map_map]
    by_cases h : keyOf (f x) ∈ xs.map fun y => keyOf (f y)
    · rw [if_pos h]
      exact if_pos h
    · rw [if_neg h, List.map_append]
      exact if_neg h

theorem keysOf_cons (x : α) (xs : List α) :
    keysOf key (x :: xs) = key x :: keysOf key (xs.filter fun y => key y ≠ key x) := by
  rw [← map_firsts, firsts_cons, List.map_cons, map_firsts]

/-- The items of a later key are found among those that do not have the first key. -/
theorem filter_of_later_key {x : α} {xs : List α} {k : Key}
    (hk : k ∈ keysOf key (xs.filter fun y => key y ≠ key x)) :
    (x :: xs).filter (key · = k) = (xs.filter fun y => key y ≠ key x).filter (key · = k) := by
  obtain ⟨y, hy, rfl⟩ := (mem_keysOf key).1 hk
  have hyx : key y ≠ key x := by simpa using (List.mem_filter.1 hy).2
  rw [List.filter_cons_of_neg (by simpa using hyx.symm), List.filter_filter]
  refine List.filter_congr fun z _ => ?_
  by_cases hz : key z = key y <;> simp [hz, hyx]

/-- The items of all keys, key by key, are the items. -/
theorem flatMap_filter_perm (xs : List α) :
    ((keysOf key xs).flatMap fun k => xs.filter (key · = k)).Perm xs := by
  match xs with
  | [] => exact List.Perm.refl _
  | x :: xs =>
    have hlt : (xs.filter fun y => key y ≠ key x).length < (x :: xs).length :=
      Nat.lt_succ_of_le (List.length_filter_le _ _)
    rw [keysOf_cons, List.flatMap_cons, List.flatMap_congr fun k => filter_of_later_key key]
    refine ((flatMap_filter_perm _).append_left _).trans ?_
    rw [List.filter_cons_of_pos (by simp), List.cons_append]
    refine List.Perm.cons x ?_
    simpa using List.filter_append_perm (fun y => decide (key y = key x)) xs
termination_by xs.length
decreasing_by simpa using hlt

theorem keysOf_filter (p : Key → Bool) (xs : List α) :
    keysOf key (xs.filter fun x => p (key x)) = (keysOf key xs).filter p := by
  induction xs using List.reverseRecOn with
  | nil => rfl
  | append_singleton xs x ih =>
    rw [List.filter_append, keysOf_concat]
    by_cases hp : p (key x) = true
    · have hmem : key x ∈ (xs.filter fun y => p (key y)).map key ↔ key x ∈ xs.map key := by
        simp only [List.mem_map, List.mem_filter]
        exact ⟨fun ⟨y, hy, e⟩ => ⟨y, hy.1, e⟩, fun ⟨y, hy, e⟩ => ⟨y, ⟨hy, e ▸ hp⟩, e⟩⟩
      rw [List.filter_singleton, hp, Bool.cond_true, keysOf_concat, ih]
      simp only [hmem]
      split_ifs
      · rfl
      · rw [List.filter_append, List.filter_cons_of_pos hp, List.filter_nil]
    · rw [List.filter_singleton, Bool.eq_false_iff.2 hp, Bool.cond_false, List.append_nil, ih]
      split_ifs
      · rfl
      · rw [List.filter_append, List.filter_cons_of_neg hp, List.filter_nil, List.append_nil]

/-- The items of some keys, key by key, are the items with such a key. -/
theorem flatMap_filter_filter_perm (p : Key → Bool) (xs : List α) :
    (((keysOf key xs).filter p).flatMap fun k => xs.filter (key · = k)).Perm
      (xs.filter fun x => p (key x)) := by
  have hbuckets : ∀ k ∈ (keysOf key xs).filter p,
      xs.filter (key · = k) = (xs.filter fun x => p (key x)).filter (key · = k) := by
    intro k hk
    rw [List.filter_filter]
    refine List.filter_congr fun x _ => ?_
    by_cases hx : key x = k
    · simp [hx, (List.mem_filter.1 hk).2]
    · simp [hx]
  rw [List.flatMap_congr hbuckets, ← keysOf_filter]
  exact flatMap_filter_perm key _

/-- All items, or only the first of each key. -/
def kept (distinct : Bool) (xs : List α) : List α := if distinct then firsts key xs else xs

@[simp] theorem kept_nil (distinct : Bool) : kept key distinct [] = [] := by
  cases distinct <;> rfl

theorem kept_concat (distinct : Bool) (xs : List α) (x : α) :
    kept key distinct (xs ++ [x]) =
      if distinct ∧ key x ∈ xs.map key then kept key distinct xs
      else kept key distinct xs ++ [x] := by
  unfold kept
  cases distinct
  · simp
  · simp [firsts_concat]

theorem length_kept_le (distinct : Bool) (xs : List α) :
    (kept key distinct xs).length ≤ xs.length := by
  cases distinct
  · exact Nat.le_refl _
  · exact (firsts_sublist key xs).length_le

theorem length_kept (distinct : Bool) (xs : List α) :
    (kept key distinct xs).length = if distinct then (keysOf key xs).length else xs.length := by
  cases distinct
  · rfl
  · rw [if_pos rfl, ← map_firsts, List.length_map]
    rfl

@[simp] theorem keysOf_kept (distinct : Bool) (xs : List α) :
    keysOf key (kept key distinct xs) = keysOf key xs := by
  cases distinct
  · rfl
  · exact keysOf_firsts key xs

theorem key_mem_map_kept {distinct : Bool} {xs : List α} {k : Key} :
    k ∈ (kept key distinct xs).map key ↔ k ∈ xs.map key := by
  rw [List.mem_map, ← mem_keysOf, keysOf_kept, mem_keysOf, List.mem_map]

end Firsts

namespace Buckets

variable {β π : Type}

/-! ## Insertion -/

/-- The buckets that a list of items ends up in. -/
def history (keyOf : α → Key) (distinct : Bool) (xs : List α) : List (Key × List α) :=
  (keysOf keyOf xs).map fun k => (k, (kept keyOf distinct xs).filter (keyOf · = k))

theorem addEntry_map {ks : List Key} (hks : ks.Nodup) (distinct : Bool) (key : Key) (x : α)
    (f : Key → List α) :
    addEntry distinct key x (ks.map fun k => (k, f k)) =
      if key ∈ ks then
        ks.map fun k => (k, if k = key ∧ distinct = false then f k ++ [x] else f k)
      else ks.map (fun k => (k, f k)) ++ [(key, [x])] := by
  induction ks with
  | nil => rfl
  | cons k ks ih =>
    obtain ⟨hk, hks⟩ := List.nodup_cons.1 hks
    rw [List.map_cons, addEntry]
    by_cases h : k = key
    · subst h
      have hrest : ∀ j ∈ ks,
          (j, f j) = (j, if j = k ∧ distinct = false then f j ++ [x] else f j) := by
        intro j hj
        rw [if_neg fun e : j = k ∧ distinct = false => hk (e.1 ▸ hj)]
      rw [if_pos rfl, if_pos List.mem_cons_self, List.map_cons, List.map_congr_left hrest]
      cases distinct <;> simp
    · rw [if_neg h, ih hks]
      have hmem : key ∈ k :: ks ↔ key ∈ ks := by simp [Ne.symm h]
      simp only [hmem]
      split_ifs
      · rw [List.map_cons, if_neg fun e : k = key ∧ distinct = false => h e.1]
      · rfl

/-- Inserting an item extends the history by it. -/
theorem addEntry_history (keyOf : α → Key) (distinct : Bool) (xs : List α) (x : α) :
    addEntry distinct (keyOf x) x (history keyOf distinct xs) =
      history keyOf distinct (xs ++ [x]) := by
  unfold history
  rw [addEntry_map (nodup_keysOf keyOf xs), keysOf_concat, kept_concat]
  have hmem : keyOf x ∈ keysOf keyOf xs ↔ keyOf x ∈ xs.map keyOf := by simp
  simp only [hmem]
  by_cases hx : keyOf x ∈ xs.map keyOf
  · rw [if_pos hx, if_pos hx]
    refine List.map_congr_left fun k _ => ?_
    cases distinct
    · by_cases hk : k = keyOf x
      · simp [hk, List.filter_append]
      · simp [hk, Ne.symm hk, List.filter_append]
    · simp [hx]
  · have hold : ∀ k ∈ keysOf keyOf xs, keyOf x ≠ k := by
      rintro k hk rfl
      exact hx (hmem.1 hk)
    have hnew : (kept keyOf distinct xs).filter (keyOf · = keyOf x) = [] := by
      rw [List.filter_eq_nil_iff]
      intro y hy hyx
      exact hx ((key_mem_map_kept keyOf).1 (List.mem_map.2 ⟨y, hy, by simpa using hyx⟩))
    rw [if_neg hx, if_neg hx, if_neg (fun h => hx h.2), List.map_append]
    congr 1
    · refine List.map_congr_left fun k hk => ?_
      rw [List.filter_append, List.filter_cons_of_neg (by simpa using hold k hk), List.filter_nil,
        List.append_nil]
    · rw [List.map_cons, List.filter_append, hnew, List.filter_cons_of_pos (by simp)]
      rfl

theorem entries_insertAll (b : Buckets α) (xs : List α)
    (h : b.entries = history b.keyOf b.distinct xs) (ys : List α) :
    b.insertAll ys = { b with entries := history b.keyOf b.distinct (xs ++ ys) } := by
  induction ys generalizing b xs with
  | nil => rw [List.append_nil, ← h]; rfl
  | cons y ys ih =>
    have hy : (b.insert y).entries = history b.keyOf b.distinct (xs ++ [y]) := by
      rw [← addEntry_history, ← h]; rfl
    calc b.insertAll (y :: ys) = (b.insert y).insertAll ys := rfl
      _ = { b with entries := history b.keyOf b.distinct (xs ++ y :: ys) } := by
        rw [ih (b.insert y) _ hy, List.append_assoc]; rfl

/-- **Insertion history.** Buckets show which items were inserted and in which order. -/
theorem ofList_eq (keyOf : α → Key) (distinct : Bool) (xs : List α) :
    ofList keyOf distinct xs = ⟨keyOf, distinct, history keyOf distinct xs⟩ :=
  entries_insertAll (empty keyOf distinct) [] rfl xs

/-! ## Queries -/

section Queries

variable (keyOf : α → Key) (distinct : Bool) (xs : List α)

@[simp] theorem size_ofList : (ofList keyOf distinct xs).size = (keysOf keyOf xs).length := by
  simp [ofList_eq, size, history]

theorem bucket?_ofList (k : Key) :
    (ofList keyOf distinct xs).bucket? k =
      if k ∈ keysOf keyOf xs then some ((kept keyOf distinct xs).filter (keyOf · = k))
      else none := by
  rw [ofList_eq]
  unfold bucket? history
  generalize keysOf keyOf xs = ks
  induction ks with
  | nil => rfl
  | cons j ks ih =>
    by_cases h : j = k
    · simp [h]
    · rw [List.map_cons, List.find?_cons_of_neg (by simpa using h), ih]
      simp [Ne.symm h]

theorem index?_ofList (k : Key) :
    (ofList keyOf distinct xs).index? k = (keysOf keyOf xs).findIdx? (· == k) := by
  rw [ofList_eq]
  unfold index? history
  rw [List.findIdx?_map]
  rfl

theorem bucketAt?_ofList (i : Nat) :
    (ofList keyOf distinct xs).bucketAt? i =
      (keysOf keyOf xs)[i]?.map fun k => (kept keyOf distinct xs).filter (keyOf · = k) := by
  rw [ofList_eq]
  unfold bucketAt? history
  rw [List.getElem?_map, Option.map_map]
  rfl

theorem toList_ofList :
    (ofList keyOf distinct xs).toList =
      (keysOf keyOf xs).map fun k => (kept keyOf distinct xs).filter (keyOf · = k) := by
  rw [ofList_eq]
  unfold toList history
  rw [List.map_map]
  rfl

@[simp] theorem itemCount_ofList :
    (ofList keyOf distinct xs).itemCount = (kept keyOf distinct xs).length := by
  unfold itemCount
  rw [toList_ofList, ← List.flatMap_def, ← keysOf_kept keyOf distinct xs]
  exact (flatMap_filter_perm keyOf _).length_eq

end Queries

end Buckets

end RecordFlow
