import Mathlib.Data.Finset.Card
import RecordFlow.Proofs.Dataset.Grouping
import RecordFlow.Proofs.Dataset.Reducing

/-!
# One record of each key

Making a dataset distinct keeps the records whose key no record before them in their base group has
(`Representatives`). Grouping and then reducing every group to its first record comes to the same,
at every level (`Dataset.distinct_eq_group_reduce`).
-/

namespace RecordFlow

/-! ## The first item of each key -/

section Firsts

variable {α : Type} (key : α → Key)

/-- The items at those positions of a list before which no item has their key. -/
def newcomers (xs : List α) : List α :=
  (xs.zipIdx.filter fun x => key x.1 ∉ (xs.take x.2).map key).map Prod.fst

/-- Items stand for the keys of a list, each key being that of one item, the first that has it. -/
structure Representatives (xs reps : List α) : Prop where
  eq_newcomers : reps = newcomers key xs
  sublist : reps.Sublist xs
  keys_differ : reps.Pairwise fun x y => key x ≠ key y
  /-- There are as many as there are different keys. -/
  length_eq : reps.length = (xs.map key).toFinset.card

theorem newcomers_concat (xs : List α) (x : α) :
    newcomers key (xs ++ [x]) =
      if key x ∈ xs.map key then newcomers key xs else newcomers key xs ++ [x] := by
  have hearlier : ∀ y ∈ xs.zipIdx, (xs ++ [x]).take y.2 = xs.take y.2 := by
    intro y hy
    have hlt : y.2 < xs.length := by simpa using List.snd_lt_of_mem_zipIdx hy
    exact List.take_append_of_le_length hlt.le
  have hold : (xs.zipIdx.filter fun y => key y.1 ∉ ((xs ++ [x]).take y.2).map key) =
      xs.zipIdx.filter fun y => key y.1 ∉ (xs.take y.2).map key :=
    List.filter_congr fun y hy => by rw [hearlier y hy]
  unfold newcomers
  rw [List.zipIdx_append, List.filter_append, hold, List.map_append]
  by_cases h : key x ∈ xs.map key
  · rw [if_pos h, List.zipIdx_singleton, List.filter_cons_of_neg (by simpa using h)]
    exact List.append_nil _
  · rw [if_neg h, List.zipIdx_singleton, List.filter_cons_of_pos (by simpa using h)]
    rfl

theorem firsts_eq_newcomers (xs : List α) : firsts key xs = newcomers key xs := by
  induction xs using List.reverseRecOn with
  | nil => rfl
  | append_singleton xs x ih => rw [firsts_concat, newcomers_concat, ih]

theorem representatives_firsts (xs : List α) : Representatives key xs (firsts key xs) := by
  refine ⟨firsts_eq_newcomers key xs, firsts_sublist key xs, ?_, ?_⟩
  · rw [← List.pairwise_map, map_firsts]
    exact nodup_keysOf key xs
  · have hkeys : (keysOf key xs).toFinset = (xs.map key).toFinset := by
      ext k
      simp
    rw [← hkeys, List.toFinset_card_of_nodup (nodup_keysOf key xs), ← map_firsts, List.length_map]

/-- Where all items have keys of their own, none is dropped. -/
theorem firsts_eq_self {xs : List α} (h : xs.Pairwise fun x y => key x ≠ key y) :
    firsts key xs = xs := by
  induction xs with
  | nil => rfl
  | cons x xs ih =>
    obtain ⟨hfirst, hrest⟩ := List.pairwise_cons.1 h
    have hall : (xs.filter fun y => key y ≠ key x) = xs :=
      List.filter_eq_self.2 fun y hy => by simpa using (hfirst y hy).symm
    rw [firsts_cons, hall, ih hrest]

theorem firsts_firsts (xs : List α) : firsts key (firsts key xs) = firsts key xs :=
  firsts_eq_self key (representatives_firsts key xs).keys_differ

/-- The first items of the buckets are the first items of the keys. -/
theorem map_bucketsOf {first : List α → α} (hfirst : ∀ x xs, first (x :: xs) = x) (xs : List α) :
    (bucketsOf key xs).map first = firsts key xs := by
  unfold bucketsOf
  rw [← map_firsts, List.map_map, List.map_map]
  refine (List.map_congr_left fun x hx => ?_).trans (List.map_id _)
  have hmem : x ∈ (firsts key xs).filter (key · = key x) := List.mem_filter.2 ⟨hx, by simp⟩
  rw [filter_firsts] at hmem
  show first (xs.filter (key · = key x)) = x
  cases hbucket : xs.filter (key · = key x) with
  | nil =>
    rw [hbucket] at hmem
    cases hmem
  | cons y ys =>
    rw [hbucket] at hmem
    cases List.mem_singleton.1 hmem
    exact hfirst x ys

end Firsts

/-! ## Datasets -/

/-- Making records distinct writes the first one of each key. -/
theorem Stage.writes_distinct (keyOf : Value → Value) :
    (distinct keyOf).Writes 0 0 fun vs => .array (firsts (fun v => .ofValue (keyOf v)) vs) := by
  intro items vs h
  rw [Node.toValue_one_eq_ok_iff] at h
  subst h
  rw [Node.toValue_one_eq_ok_iff, Chained.onList_distinct, firsts_map]
  rfl

namespace Dataset

variable {d : Dataset} {v : Value} {depth : Nat} {keyOf : Value → Value}

namespace Nested

theorem get_distinct (h : d.Nested) (hlevel : d.level = depth + 1) (hv : d.get.result = .ok v)
    (keyOf : Value → Value) :
    (d.distinct keyOf).dataset.get.result =
      .ok (v.mapArrays (fun rs => .array (firsts (fun r => .ofValue (keyOf r)) rs)) depth) :=
  h.get_chain .distinct (.distinct keyOf) (Stage.writes_distinct keyOf) hlevel hv

/-- A single item is distinct. -/
theorem get_distinct_of_zero (h : d.Nested) (hlevel : d.level = 0) (hv : d.get.result = .ok v)
    (keyOf : Value → Value) : (d.distinct keyOf).dataset.get.result = .ok v := by
  refine h.get_chain_of_zero .distinct (.distinct keyOf) ?_ hlevel hv
  unfold Stage.onSingle
  rw [Stage.Chained.onList_distinct, firsts_cons]
  rfl

/-- Reducing the buckets of a group to their first records leaves the first record of each key. -/
theorem get_group_reduce (h : d.Nested) (hlevel : d.level = depth + 1) (hv : d.get.result = .ok v)
    (keyOf : Value → Value) {first : List Value → Value} (hfirst : ∀ r rs, first (r :: rs) = r) :
    ((d.group keyOf).dataset.reduce (.fold first)).dataset.level = depth + 1 ∧
      ((d.group keyOf).dataset.reduce (.fold first)).dataset.get.result =
        .ok (v.mapArrays (fun rs => .array (firsts (fun r => .ofValue (keyOf r)) rs)) depth) := by
  have hgroupedLevel : (d.group keyOf).dataset.level = depth + 2 := congrArg (· + 1) hlevel
  obtain ⟨hlower, hreduced⟩ :=
    (h.group keyOf).get_reduce hgroupedLevel (h.get_group hlevel hv keyOf) (.fold first)
  refine ⟨hlower, hreduced.trans (congrArg Except.ok ?_)⟩
  rw [Value.mapArrays_succ, Value.mapArrays_mapArrays]
  congr 1
  funext rs
  show Value.array (((bucketsOf _ rs).map Value.array).map fun v => v.mapArrays first 0) = _
  rw [List.map_map]
  exact congrArg Value.array (map_bucketsOf _ hfirst rs)

end Nested

/-- **Making a dataset distinct is grouping it and keeping the first record of every group.** Both
succeed at every level and come to the same value at the same level, in which the records of every
base group have been replaced by the first one of each key. Doing it twice changes nothing. -/
theorem distinct_eq_group_reduce (h : Reachable d) (keyOf : Value → Value)
    {first : List Value → Value} (hfirst : ∀ r rs, first (r :: rs) = r) :
    let key := fun record => Key.ofValue (keyOf record)
    let distinct := d.distinct keyOf
    let again := distinct.dataset.distinct keyOf
    let grouped := d.group keyOf
    let reduced := grouped.dataset.reduce (.fold first)
    distinct.result = .ok () ∧ grouped.result = .ok () ∧ reduced.result = .ok () ∧
      again.result = .ok () ∧
      distinct.dataset.level = d.level ∧ reduced.dataset.level = d.level ∧
      again.dataset.level = d.level ∧
      (∃ v w, d.get.result = .ok v ∧ v.Nested d.level ∧ distinct.dataset.get.result = .ok w ∧
        reduced.dataset.get.result = .ok w ∧ again.dataset.get.result = .ok w ∧
        (d.level = 0 → w = v) ∧
        ∀ depth, d.level = depth + 1 →
          w = v.mapArrays (fun rs => .array (firsts key rs)) depth) ∧
      ∀ records, Representatives key records (firsts key records) := by
  intro key distinct again grouped reduced
  obtain ⟨v, hv, hnested⟩ := h.nested.exists_value
  have hgrouped : grouped.dataset.Nested := h.nested.group keyOf
  have hdistinct : distinct.dataset.Nested := h.nested.chain .distinct (.distinct keyOf)
  have hok : reduced.result = .ok () := hgrouped.reduceWith_result (.fold first) true
  suffices hvalues : reduced.dataset.level = d.level ∧
      ∃ w, distinct.dataset.get.result = .ok w ∧ reduced.dataset.get.result = .ok w ∧
        again.dataset.get.result = .ok w ∧ (d.level = 0 → w = v) ∧
        ∀ depth, d.level = depth + 1 →
          w = v.mapArrays (fun rs => .array (firsts key rs)) depth by
    obtain ⟨hlevel, w, hw⟩ := hvalues
    exact ⟨rfl, rfl, hok, rfl, rfl, hlevel, rfl, ⟨v, w, hv, hnested, hw⟩, representatives_firsts key⟩
  match hlevel : d.level with
  | 0 =>
    have hholds := h.nested.holds_group_of_zero hlevel hv keyOf
    obtain ⟨hlower, hreduced⟩ := hgrouped.get_reduce hholds.1 hholds.get (.fold first)
    have hw := h.nested.get_distinct_of_zero hlevel hv keyOf
    refine ⟨hlower, v, hw, ?_, hdistinct.get_distinct_of_zero hlevel hw keyOf, fun _ => rfl,
      fun depth hdepth => absurd hdepth.symm (Nat.succ_ne_zero depth)⟩
    exact hreduced.trans (congrArg Except.ok (hfirst v []))
  | depth + 1 =>
    obtain ⟨hlower, hreduced⟩ := h.nested.get_group_reduce hlevel hv keyOf hfirst
    have hw := h.nested.get_distinct hlevel hv keyOf
    have hagain := hdistinct.get_distinct hlevel hw keyOf
    rw [Value.mapArrays_mapArrays] at hagain
    simp only [Value.mapArrays, firsts_firsts] at hagain
    refine ⟨hlower, _, hw, hreduced, hagain, fun hzero => absurd hzero (Nat.succ_ne_zero depth),
      fun depth' hdepth => ?_⟩
    cases hdepth
    rfl

/-- The integer one and the float `1.0` have one key, and the integer comes first. -/
theorem distinct_eq_group_reduce_of_ones :
    let one := Value.number (.int 1 (by decide))
    let float := Value.number (.float ⟨0x3ff0000000000000, by decide⟩)
    let v := Value.array [.array [one, .null, float, .null], .array []]
    let w := Value.array [.array [one, .null], .array []]
    let first := fun rs : List Value => rs.headD .null
    ∃ d, ofNested v 2 = .ok d ∧ Reachable d ∧ (∀ r rs, first (r :: rs) = r) ∧
      (d.distinct id).dataset.get.result = .ok w ∧
      ((d.group id).dataset.reduce (.fold first)).dataset.get.result = .ok w := by
  intro one float v w first
  obtain ⟨d, hd⟩ : ∃ d, ofNested v 2 = .ok d := ⟨_, rfl⟩
  obtain ⟨hreachable, hlevel, hv⟩ := reachable_ofNested hd
  have hfirst : ∀ r rs, first (r :: rs) = r := fun r rs => rfl
  obtain ⟨-, -, -, -, -, -, -, ⟨u, x, hu, -, hdistinct, hreduced, -, -, hdeep⟩, -⟩ :=
    distinct_eq_group_reduce hreachable id hfirst
  cases hv.symm.trans hu
  have hx : x = w := by
    rw [hdeep 1 hlevel]
    dsimp +zetaDelta only
    rfl
  rw [hx] at hdistinct hreduced
  exact ⟨d, hd, hreachable, hfirst, hdistinct, hreduced⟩

end Dataset

end RecordFlow
