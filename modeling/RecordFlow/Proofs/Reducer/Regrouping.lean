import RecordFlow.Proofs.Reducer.Sum
import RecordFlow.Proofs.Value.Fields

/-!
# Folds of folds

Folding the items of groups, and the folds of the groups then, is folding all items, if the order and
the grouping of items do not matter to the fold (`foldNonempty_flatten`, `foldNonempty_perm`). They
do not matter to sums and extremes of integers as long as no sum can be held back, and counting is
summing ones. So the columns of an aggregate can be rolled up from those of groups
(`Aggregate.rollup_apply`).
-/

namespace RecordFlow

/-! ## Folds -/

/-- The fold of the items of a list, if there are any. -/
def foldNonempty {α : Type} (f : α → α → α) : List α → Option α
  | [] => none
  | x :: xs => some (xs.foldl f x)

section Folds

variable {α : Type} (f : α → α → α) [Std.Associative f] {xs ys : List α}

theorem foldNonempty_cons (x : α) (xs : List α) :
    foldNonempty f (x :: xs) = Option.merge f (some x) (foldNonempty f xs) := by
  cases xs with
  | nil => rfl
  | cons y ys => exact congrArg some List.foldl_assoc

theorem foldNonempty_append (xs ys : List α) :
    foldNonempty f (xs ++ ys) = Option.merge f (foldNonempty f xs) (foldNonempty f ys) := by
  induction xs with
  | nil => exact Option.merge_none_left.symm
  | cons x xs ih =>
    rw [List.cons_append, foldNonempty_cons, ih, foldNonempty_cons,
      (Option.associative_merge f).assoc]

/-- The folds of groups that are not empty are folded as all items are. -/
theorem foldNonempty_flatten (xss : List (List α)) :
    foldNonempty f xss.flatten = foldNonempty f (xss.filterMap (foldNonempty f)) := by
  induction xss with
  | nil => rfl
  | cons xs xss ih =>
    rw [List.flatten_cons, foldNonempty_append, ih]
    cases hfold : foldNonempty f xs with
    | none => rw [List.filterMap_cons_none hfold, Option.merge_none_left]
    | some x => rw [List.filterMap_cons_some hfold, foldNonempty_cons]

theorem foldNonempty_perm [Std.Commutative f] (h : xs.Perm ys) :
    foldNonempty f xs = foldNonempty f ys := by
  induction h with
  | nil => rfl
  | cons x _ ih => rw [foldNonempty_cons, foldNonempty_cons, ih]
  | swap x y xs =>
    rw [foldNonempty_cons, foldNonempty_cons, foldNonempty_cons, foldNonempty_cons,
      ← (Option.associative_merge f).assoc, (Option.commutative_merge f).comm (some y),
      (Option.associative_merge f).assoc]
  | trans _ _ ih₁ ih₂ => exact ih₁.trans ih₂

end Folds

/-! ## Exact folds of integers -/

/-- The sum of the magnitudes of integers. -/
def spread (ints : List Int) : Nat := (ints.map Int.natAbs).sum

@[simp] theorem spread_cons (n : Int) (ints : List Int) :
    spread (n :: ints) = n.natAbs + spread ints := List.sum_cons

@[simp] theorem spread_append (ints others : List Int) :
    spread (ints ++ others) = spread ints + spread others := by
  unfold spread
  rw [List.map_append, List.sum_append]

theorem spread_perm {ints others : List Int} (h : ints.Perm others) :
    spread ints = spread others := (h.map _).sum_eq

theorem natAbs_le_spread {n : Int} {ints : List Int} (h : n ∈ ints) : n.natAbs ≤ spread ints :=
  List.single_le_sum (fun _ _ => Nat.zero_le _) _ (List.mem_map_of_mem h)

/-- An integer as a value, null if there is none. -/
def Value.ofInt? : Option Int → Value
  | some n => .number (.ofIntClamped n)
  | none => .null

namespace Reduction

variable {op : Reduction} {ints : List Int} {m n : Int}

/-- Fold one more integer into what was folded before, without holding sums back. -/
def combineExact : Reduction → Int → Int → Int
  | .min, a, b => Min.min a b
  | .max, a, b => Max.max a b
  | _, a, b => a + b

instance (op : Reduction) : Std.Associative op.combineExact :=
  ⟨fun a b c => by cases op <;> simp only [combineExact] <;> omega⟩

instance (op : Reduction) : Std.Commutative op.combineExact :=
  ⟨fun a b => by cases op <;> simp only [combineExact] <;> omega⟩

theorem natAbs_combineExact_le : (op.combineExact m n).natAbs ≤ m.natAbs + n.natAbs := by
  cases op <;> simp only [combineExact] <;> omega

theorem combineInt_eq_exact (h : m.natAbs + n.natAbs ≤ 0x7fffffffffffffff) :
    op.combineInt m n = op.combineExact m n := by
  have hfits : FitsInt64 (m + n) := by
    unfold FitsInt64
    omega
  cases op <;> simp only [combineInt, combineExact, clamp_of_fits hfits]

theorem natAbs_foldl_le (n : Int) (ints : List Int) :
    (ints.foldl op.combineExact n).natAbs ≤ n.natAbs + spread ints := by
  induction ints generalizing n with
  | nil => exact Nat.le_refl _
  | cons m ints ih =>
    have hle := @natAbs_combineExact_le op n m
    have hrest := ih (op.combineExact n m)
    rw [List.foldl_cons, spread_cons]
    omega

/-- Integers whose magnitudes have a sum that fits are folded exactly. -/
theorem foldl_combineInt (h : n.natAbs + spread ints ≤ 0x7fffffffffffffff) :
    ints.foldl op.combineInt n = ints.foldl op.combineExact n := by
  induction ints generalizing n with
  | nil => rfl
  | cons m ints ih =>
    rw [spread_cons] at h
    have hle := @natAbs_combineExact_le op n m
    rw [List.foldl_cons, List.foldl_cons, combineInt_eq_exact (by omega)]
    exact ih (by omega)

theorem natAbs_foldNonempty_le (h : foldNonempty op.combineExact ints = some n) :
    n.natAbs ≤ spread ints := by
  cases ints with
  | nil => cases h
  | cons m ints =>
    cases h
    exact natAbs_foldl_le m ints

theorem reduceInts_eq (h : spread ints ≤ 0x7fffffffffffffff) :
    op.reduceInts ints = .ofInt? (foldNonempty op.combineExact ints) := by
  cases ints with
  | nil => rfl
  | cons n ints =>
    rw [spread_cons] at h
    unfold reduceInts
    dsimp only
    rw [foldl_combineInt h]
    rfl

/-- Folding groups does not make magnitudes greater. -/
theorem spread_folds_le (xss : List (List Int)) :
    spread (xss.filterMap (foldNonempty op.combineExact)) ≤ spread xss.flatten := by
  induction xss with
  | nil => exact Nat.le_refl _
  | cons xs xss ih =>
    rw [List.flatten_cons, spread_append]
    cases hfold : foldNonempty op.combineExact xs with
    | none =>
      rw [List.filterMap_cons_none hfold]
      omega
    | some n =>
      have hle := natAbs_foldNonempty_le hfold
      rw [List.filterMap_cons_some hfold, spread_cons]
      omega

/-! ## Folds of rows -/

variable {name path : String} {rows records : List Value} {buckets : List (List Value)}

/-- Where the values at a path are integers or null, the integers there are these. -/
theorem intsAt_of_atPath {α : Type} {xs : List α} {row : α → Value} {pick : α → Option Int}
    (hfits : ∀ x ∈ xs, ∀ n, pick x = some n → FitsInt64 n)
    (hrow : ∀ x ∈ xs, (row x).atPath name = .ofInt? (pick x)) :
    (∀ n ∈ numbersAt name (xs.map row), n.toInt64? ≠ none) ∧
      intsAt name (xs.map row) = xs.filterMap pick := by
  have hnumber : ∀ x ∈ xs, ((row x).atPath name).number? = (pick x).map .ofIntClamped := by
    intro x hx
    rw [hrow x hx]
    cases pick x <;> rfl
  have hexact : ∀ x ∈ xs, ∀ n, pick x = some n → (Number.ofIntClamped n).toInt64? = some n := by
    intro x hx n hn
    have hclamp := clamp_of_fits (hfits x hx n hn)
    have hrange := hfits x hx n hn
    unfold FitsInt64 at hrange
    simp only [Number.ofIntClamped, Number.toInt64?, hclamp]
    exact if_pos (by omega)
  have hnumbers : numbersAt name (xs.map row) =
      xs.filterMap fun x => (pick x).map .ofIntClamped := by
    unfold numbersAt
    rw [List.filterMap_map]
    exact List.filterMap_congr hnumber
  rw [intsAt, hnumbers]
  constructor
  · intro number hmem
    obtain ⟨x, hx, hpick⟩ := List.mem_filterMap.1 hmem
    obtain ⟨n, hn, rfl⟩ := Option.map_eq_some_iff.1 hpick
    rw [hexact x hx n hn]
    exact Option.some_ne_none n
  · rw [List.filterMap_filterMap]
    refine List.filterMap_congr fun x hx => ?_
    cases hn : pick x with
    | none => rfl
    | some n => exact hexact x hx n hn

/-- **Folding groups and folding their folds.** If rows made of groups hold the folds of the integers
picked from the records of the groups, then folding the rows gives the fold of all these integers. -/
theorem apply_folds (hop : op ∈ [sum, min, max]) {pick : Value → Option Int}
    {row : List Value → Value} (hperm : buckets.flatten.Perm records)
    (hspread : spread (records.filterMap pick) ≤ 0x7fffffffffffffff)
    (hrow : ∀ bucket ∈ buckets, (row bucket).atPath name =
      .ofInt? (foldNonempty op.combineExact (bucket.filterMap pick))) :
    op.apply (buckets.map row) name =
      .ofInt? (foldNonempty op.combineExact (records.filterMap pick)) := by
  have hints : (buckets.map (List.filterMap pick)).flatten.Perm (records.filterMap pick) := by
    rw [← List.filterMap_flatten]
    exact hperm.filterMap pick
  have hfold : buckets.filterMap (fun bucket =>
        foldNonempty op.combineExact (bucket.filterMap pick)) =
      (buckets.map (List.filterMap pick)).filterMap (foldNonempty op.combineExact) := by
    rw [List.filterMap_map]
    rfl
  have hrows := @spread_folds_le op (buckets.map (List.filterMap pick))
  rw [spread_perm hints] at hrows
  have hfits : ∀ bucket ∈ buckets, ∀ n,
      foldNonempty op.combineExact (bucket.filterMap pick) = some n → FitsInt64 n := by
    intro bucket hbucket n hn
    have hmem : n ∈ (buckets.map (List.filterMap pick)).filterMap (foldNonempty op.combineExact) :=
      List.mem_filterMap.2 ⟨_, List.mem_map_of_mem hbucket, hn⟩
    have hle := natAbs_le_spread hmem
    unfold FitsInt64
    omega
  obtain ⟨hnumbers, hpicked⟩ := intsAt_of_atPath hfits hrow
  rw [apply_eq_reduceInts hop hnumbers, hpicked, hfold, reduceInts_eq (hrows.trans hspread),
    ← foldNonempty_flatten, foldNonempty_perm _ hints]

/-- Where all numbers are signed 64-bit integers whose magnitudes have a sum that fits, reductions
fold them exactly. -/
theorem apply_eq_fold (hop : op ∈ [sum, min, max])
    (hints : ∀ n ∈ numbersAt path records, n.toInt64? ≠ none)
    (hspread : spread (intsAt path records) ≤ 0x7fffffffffffffff) :
    op.apply records path = .ofInt? (foldNonempty op.combineExact (intsAt path records)) := by
  rw [apply_eq_reduceInts hop hints, reduceInts_eq hspread]

theorem foldl_ones (rs : List Value) (n : Int) :
    (rs.filterMap fun _ => some 1).foldl sum.combineExact n = n + rs.length := by
  induction rs generalizing n with
  | nil => exact (Int.add_zero n).symm
  | cons r rs ih =>
    refine (ih (n + 1)).trans ?_
    rw [List.length_cons]
    omega

theorem spread_ones (rs : List Value) : spread (rs.filterMap fun _ => some 1) = rs.length := by
  induction rs with
  | nil => rfl
  | cons r rs ih =>
    refine (spread_cons 1 _).trans ?_
    rw [ih, List.length_cons]
    exact Nat.add_comm 1 _

/-- Counting is summing ones. -/
theorem apply_count_eq_fold (hne : records ≠ []) (hfits : FitsInt64 records.length)
    (path : String) :
    count.apply records path =
      .ofInt? (foldNonempty sum.combineExact (records.filterMap fun _ => some 1)) := by
  cases records with
  | nil => exact absurd rfl hne
  | cons r rs =>
    have hfold : foldNonempty sum.combineExact ((r :: rs).filterMap fun _ => some 1) =
        some ((r :: rs).length : Int) := by
      refine congrArg some ((foldl_ones rs 1).trans ?_)
      rw [List.length_cons]
      omega
    have hlength : (UInt64.ofNat (r :: rs).length).toNat = (r :: rs).length := by
      refine UInt64.toNat_ofNat_of_lt' ?_
      unfold FitsInt64 at hfits
      unfold UInt64.size
      omega
    rw [hfold]
    show Value.number (.ofUInt64 (UInt64.ofNat (r :: rs).length)) = .number (.ofIntClamped _)
    simp only [Number.ofUInt64, Number.ofIntClamped, hlength, clamp_of_fits hfits]

end Reduction

/-! ## Aggregates of aggregates -/

namespace Aggregate

variable {a : Aggregate} {c : Column} {records : List Value}

/-- The value of a column is found at its name, unless another column has the name or the name is
not one step of a path. -/
theorem atPath_apply (hnames : (a.columns.map Column.name).Nodup) (hc : c ∈ a.columns)
    (hstep : Path.segments c.name = [c.name.toList]) (records : List Value) :
    (a.apply records).atPath c.name = c.reduction.apply records c.field := by
  have hentry : (c.name, c.reduction.apply records c.field) ∈
      a.columns.map fun c => (c.name, c.reduction.apply records c.field) :=
    List.mem_map_of_mem hc
  have hget := Fields.get?_ofList (by rwa [List.map_map]) hentry
  unfold Value.atPath
  rw [hstep, List.foldl_cons, List.foldl_nil]
  show (Fields.get? (Fields.ofList _) (String.ofList c.name.toList)).getD Value.null = _
  rw [String.ofList_toList, hget]
  rfl

end Aggregate

namespace Column

variable {c : Column} {records : List Value} {buckets : List (List Value)}

/-- The column that folds a column of groups: counts are summed up, and any other reduction is made
once more. -/
def rollup (c : Column) : Column :=
  ⟨c.name, c.name, if c.reduction = .count then .sum else c.reduction⟩

/-- The integers that a column folds: ones, to count records, or those found at its path. -/
def pick (c : Column) (record : Value) : Option Int :=
  if c.reduction = .count then some 1 else (record.atPath c.field).number?.bind Number.toInt64?

/-- A column that comes out the same from records and from groups of them: a count that fits, or a
sum or an extreme of signed 64-bit integers whose magnitudes have a sum that fits. -/
inductive RollsUp (records : List Value) (c : Column) : Prop where
  | count (h : c.reduction = .count) (hfits : FitsInt64 records.length)
  | fold (h : c.reduction ∈ [.sum, .min, .max])
    (hints : ∀ n ∈ Reduction.numbersAt c.field records, n.toInt64? ≠ none)
    (hspread : spread (Reduction.intsAt c.field records) ≤ 0x7fffffffffffffff)

namespace RollsUp

theorem of_perm {others : List Value} (h : c.RollsUp records) (hperm : others.Perm records) :
    c.RollsUp others := by
  cases h with
  | count h hfits => exact .count h (hperm.length_eq ▸ hfits)
  | fold h hints hspread =>
    refine .fold h (fun n hn => hints n ((Reduction.numbersAt_perm hperm c.field).mem_iff.1 hn)) ?_
    rwa [spread_perm (Reduction.intsAt_perm hperm c.field)]

/-- A column of a group comes out the same as well. -/
theorem of_sublist {others : List Value} (h : c.RollsUp records) (hsub : others.Sublist records) :
    c.RollsUp others := by
  cases h with
  | count h hfits =>
    have hle := hsub.length_le
    unfold FitsInt64 at hfits
    exact .count h (by unfold FitsInt64; omega)
  | fold h hints hspread =>
    have hnumbers := hsub.filterMap fun r => (r.atPath c.field).number?
    have hle : spread (Reduction.intsAt c.field others) ≤ spread (Reduction.intsAt c.field records) :=
      ((hnumbers.filterMap Number.toInt64?).map Int.natAbs).sum_le_sum fun _ _ => Nat.zero_le _
    exact .fold h (fun n hn => hints n (hnumbers.subset hn)) (hle.trans hspread)

theorem apply_eq_fold (h : c.RollsUp records) (hne : records ≠ []) :
    c.rollup.reduction ∈ [.sum, .min, .max] ∧
      spread (records.filterMap c.pick) ≤ 0x7fffffffffffffff ∧
      c.reduction.apply records c.field =
        .ofInt? (foldNonempty c.rollup.reduction.combineExact (records.filterMap c.pick)) := by
  unfold rollup pick
  cases h with
  | count h hfits =>
    simp only [h, if_true]
    refine ⟨by simp, ?_, Reduction.apply_count_eq_fold hne hfits c.field⟩
    rw [Reduction.spread_ones]
    unfold FitsInt64 at hfits
    omega
  | fold h hints hspread =>
    have hcount : c.reduction ≠ .count := by
      intro hcount
      rw [hcount] at h
      simp at h
    have hpicked : records.filterMap (fun r => (r.atPath c.field).number?.bind Number.toInt64?) =
        Reduction.intsAt c.field records := List.filterMap_filterMap.symm
    simp only [if_neg hcount]
    rw [hpicked]
    exact ⟨h, hspread, Reduction.apply_eq_fold h hints hspread⟩

/-- **Rolling up a column.** A column of groups that are not empty is rolled up to that of all their
records. -/
theorem rollup_apply {row : List Value → Value} (h : c.RollsUp records) (hne : records ≠ [])
    (hperm : buckets.flatten.Perm records) (hbuckets : ∀ bucket ∈ buckets, bucket ≠ [])
    (hrow : ∀ bucket ∈ buckets, (row bucket).atPath c.name = c.reduction.apply bucket c.field) :
    c.rollup.reduction.apply (buckets.map row) c.name = c.reduction.apply records c.field := by
  obtain ⟨hop, hspread, hflat⟩ := h.apply_eq_fold hne
  rw [hflat]
  refine Reduction.apply_folds hop hperm hspread fun bucket hbucket => ?_
  have hbucketFolds := (h.of_perm hperm).of_sublist (List.sublist_flatten_of_mem hbucket)
  exact (hrow bucket hbucket).trans (hbucketFolds.apply_eq_fold (hbuckets bucket hbucket)).2.2

end RollsUp

end Column

namespace Aggregate

variable {a : Aggregate} {records : List Value} {buckets : List (List Value)}

/-- The aggregate that folds the aggregates of groups. -/
def rollup (a : Aggregate) : Aggregate := ⟨a.columns.map Column.rollup⟩

/-- **Aggregating through groups.** The aggregates of groups that are not empty are folded to the
aggregate of all their records, if every column rolls up and is found at its name. -/
theorem rollup_apply (hnames : (a.columns.map Column.name).Nodup)
    (hsteps : ∀ c ∈ a.columns, Path.segments c.name = [c.name.toList])
    (hcolumns : ∀ c ∈ a.columns, c.RollsUp records) (hne : records ≠ [])
    (hperm : buckets.flatten.Perm records) (hbuckets : ∀ bucket ∈ buckets, bucket ≠ []) :
    a.rollup.apply (buckets.map a.apply) = a.apply records := by
  have hcolumn : ∀ c ∈ a.columns,
      (c.name, c.rollup.reduction.apply (buckets.map a.apply) c.name) =
        (c.name, c.reduction.apply records c.field) := fun c hc =>
    congrArg (Prod.mk c.name) ((hcolumns c hc).rollup_apply hne hperm hbuckets fun bucket _ =>
      atPath_apply hnames hc (hsteps c hc) bucket)
  unfold apply rollup
  rw [List.map_map]
  exact congrArg (fun entries => Value.object (Fields.ofList entries)) (List.map_congr_left hcolumn)

end Aggregate

end RecordFlow
