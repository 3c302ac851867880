import Mathlib.Order.Bounds.Basic
import RecordFlow.Proofs.MachineFloat
import RecordFlow.Proofs.Reducer.Sum

/-!
# Extremes of integers

The least and the greatest of some integers are found exactly as long as all integers are signed
64-bit integers. Once one of them is greater, all are rounded to floats, and the extreme is the float
nearest to the exact one (`Reduction.extremes_exact`): rounding keeps the order, so the machine finds
the right float.
-/

namespace RecordFlow

/-! ## Integers -/

/-- The integer, if the number is kept as one. -/
def Number.integer? : Number → Option Int
  | .int n _ => some n
  | .float _ => none

theorem Number.range_of_integer? {number : Number} {n : Int} (h : number.integer? = some n) :
    -0x8000000000000000 ≤ n ∧ n < 0x10000000000000000 := by
  cases number with
  | int m inRange =>
    cases h
    exact inRange
  | float x => cases h

/-- An integer is kept exactly by folding if it is a signed 64-bit integer. -/
theorem Number.toInt64?_eq {number : Number} {n : Int} (h : number.integer? = some n) :
    number.toInt64? = if FitsInt64 n then some n else none := by
  cases number with
  | int m inRange =>
    cases h
    refine if_congr ?_ rfl rfl
    unfold FitsInt64
    omega
  | float x => cases h

namespace Reduction

/-- The integers found at a path of records, signed or unsigned. -/
def integersAt (path : String) (records : List Value) : List Int :=
  (numbersAt path records).filterMap Number.integer?

variable {path : String} {records : List Value} {op : Reduction} {ints : List Int} {n : Int}

/-! ## Extremes on the machine -/

/-- The machine finds the float nearest to the extreme of two integers. -/
theorem combineFloat_ofInt (hop : op ∈ [min, max]) {m n : Int} (hm : m.natAbs ≤ 2 ^ 64)
    (hn : n.natAbs ≤ 2 ^ 64) :
    op.combineFloat (Binary64.ofInt m).toFloat (Binary64.ofInt n).toFloat =
      (Binary64.ofInt (op.combineInt m n)).toFloat := by
  simp only [List.mem_cons, List.not_mem_nil, or_false] at hop
  rcases hop with rfl | rfl <;> rcases Int.le_total m n with h | h
  · obtain ⟨-, hlt | heq⟩ := Binary64.toFloat_ofInt_lt_or_eq hm hn h
    · simp only [combineFloat, combineInt, if_pos hlt, min_eq_left h]
    · simp only [combineFloat, combineInt, min_eq_left h, heq, ite_self]
  · obtain ⟨hnot, -⟩ := Binary64.toFloat_ofInt_lt_or_eq hn hm h
    simp only [combineFloat, combineInt, if_neg hnot, min_eq_right h]
  · obtain ⟨hnot, -⟩ := Binary64.toFloat_ofInt_lt_or_eq hm hn h
    simp only [combineFloat, combineInt, if_neg hnot, max_eq_right h]
  · obtain ⟨-, hlt | heq⟩ := Binary64.toFloat_ofInt_lt_or_eq hn hm h
    · simp only [combineFloat, combineInt, if_pos hlt, max_eq_left h]
    · simp only [combineFloat, combineInt, max_eq_left h, heq, ite_self]

theorem natAbs_combineInt_le (hop : op ∈ [min, max]) {bound : Nat} {m n : Int}
    (hm : m.natAbs ≤ bound) (hn : n.natAbs ≤ bound) : (op.combineInt m n).natAbs ≤ bound := by
  simp only [List.mem_cons, List.not_mem_nil, or_false] at hop
  rcases hop with rfl | rfl <;> simp only [combineInt] <;> omega

/-- Folding the floats nearest to integers gives the float nearest to their extreme. -/
theorem foldl_combineFloat (hop : op ∈ [min, max]) (hn : n.natAbs ≤ 2 ^ 64)
    (hints : ∀ m ∈ ints, m.natAbs ≤ 2 ^ 64) :
    (ints.map fun m => (Binary64.ofInt m).toFloat).foldl op.combineFloat (Binary64.ofInt n).toFloat =
      (Binary64.ofInt (ints.foldl op.combineInt n)).toFloat := by
  induction ints generalizing n with
  | nil => rfl
  | cons m ints ih =>
    obtain ⟨hm, hints⟩ := List.forall_mem_cons.1 hints
    rw [List.map_cons, List.foldl_cons, combineFloat_ofInt hop hn hm]
    exact ih (natAbs_combineInt_le hop hn hm) hints

theorem reduceFloats_ofInt (hop : op ∈ [min, max]) (hints : ∀ m ∈ n :: ints, m.natAbs ≤ 2 ^ 64) :
    op.reduceFloats ((n :: ints).map fun m => (Binary64.ofInt m).toFloat) =
      .number (.float (Binary64.ofInt (ints.foldl op.combineInt n))) := by
  obtain ⟨hn, hints⟩ := List.forall_mem_cons.1 hints
  rw [List.map_cons]
  unfold reduceFloats
  dsimp only
  rw [if_neg (ne_avg (List.mem_cons_of_mem sum hop)), foldl_combineFloat hop hn hints, Value.ofFloat,
    Number.ofFloat?, Binary64.ofFloat?_toFloat]
  rfl

/-! ## Extremes of fields -/

theorem foldl_isLeast (n : Int) (ints : List Int) :
    IsLeast {m | m ∈ n :: ints} (ints.foldl min.combineInt n) :=
  List.min?_eq_some_iff.1 (@List.min?_cons' Int n _ ints)

theorem foldl_isGreatest (n : Int) (ints : List Int) :
    IsGreatest {m | m ∈ n :: ints} (ints.foldl max.combineInt n) :=
  List.max?_eq_some_iff.1 (@List.max?_cons' Int n _ ints)

theorem foldl_mem (hop : op ∈ [min, max]) (n : Int) (ints : List Int) :
    ints.foldl op.combineInt n ∈ n :: ints := by
  simp only [List.mem_cons, List.not_mem_nil, or_false] at hop
  rcases hop with rfl | rfl
  · exact (foldl_isLeast n ints).1
  · exact (foldl_isGreatest n ints).1

theorem range_of_mem_integersAt (h : n ∈ integersAt path records) :
    -0x8000000000000000 ≤ n ∧ n < 0x10000000000000000 := by
  obtain ⟨number, -, hnumber⟩ := List.mem_filterMap.1 h
  exact Number.range_of_integer? hnumber

/-- Where all numbers are integers, and each is a signed 64-bit integer, extremes fold these. -/
theorem apply_extreme_of_fits (hop : op ∈ [min, max])
    (hints : ∀ n ∈ numbersAt path records, n.integer? ≠ none)
    (hfits : ∀ n ∈ integersAt path records, FitsInt64 n) :
    op.apply records path = op.reduceInts (integersAt path records) := by
  have hexact : ∀ number ∈ numbersAt path records, ∃ n,
      number.toInt64? = some n ∧ number.integer? = some n := by
    intro number hmem
    obtain ⟨n, hn⟩ := Option.ne_none_iff_exists'.1 (hints number hmem)
    have hfit := hfits n (List.mem_filterMap.2 ⟨number, hmem, hn⟩)
    exact ⟨n, by rw [Number.toInt64?_eq hn, if_pos hfit], hn⟩
  have heq : intsAt path records = integersAt path records := by
    refine List.filterMap_congr fun number hmem => ?_
    obtain ⟨n, hexact, hinteger⟩ := hexact number hmem
    rw [hexact, hinteger]
  rw [← heq]
  refine apply_eq_reduceInts (List.mem_cons_of_mem sum hop) fun number hmem => ?_
  obtain ⟨n, hexact, -⟩ := hexact number hmem
  rw [hexact]
  exact Option.some_ne_none n

theorem mapM_toInt64?_eq_none {numbers : List Number} {number : Number} (hmem : number ∈ numbers)
    (hnone : number.toInt64? = none) : numbers.mapM Number.toInt64? = none := by
  induction hmem with
  | head numbers =>
    rw [List.mapM_cons, hnone]
    rfl
  | tail other _ ih =>
    rw [List.mapM_cons, ih]
    cases other.toInt64? <;> rfl

theorem map_toFloat {numbers : List Number} (hints : ∀ n ∈ numbers, n.integer? ≠ none) :
    numbers.map (fun n => n.toBinary64.toFloat) =
      (numbers.filterMap Number.integer?).map fun n => (Binary64.ofInt n).toFloat := by
  induction numbers with
  | nil => rfl
  | cons number numbers ih =>
    obtain ⟨hfirst, hrest⟩ := List.forall_mem_cons.1 hints
    cases number with
    | int m inRange =>
      rw [List.map_cons, ih hrest]
      rfl
    | float x => exact absurd rfl hfirst

/-- Once an integer is no signed 64-bit integer, an extreme is the float nearest to it. -/
theorem apply_extreme_of_not_fits (hop : op ∈ [min, max])
    (hints : ∀ n ∈ numbersAt path records, n.integer? ≠ none)
    (hcons : integersAt path records = n :: ints)
    (hwide : ∃ n ∈ integersAt path records, ¬ FitsInt64 n) :
    op.apply records path = .number (.float (.ofInt (ints.foldl op.combineInt n))) := by
  obtain ⟨m, hm, hwide⟩ := hwide
  obtain ⟨number, hmem, hnumber⟩ := List.mem_filterMap.1 hm
  have hnone : number.toInt64? = none := by rw [Number.toInt64?_eq hnumber, if_neg hwide]
  have hfold : op ∈ [sum, min, max] := List.mem_cons_of_mem sum hop
  have hfloats : op.apply records path =
      op.reduceFloats ((integersAt path records).map fun n => (Binary64.ofInt n).toFloat) := by
    rw [apply_eq_reduceNumbers hfold, reduceNumbers, if_neg (ne_avg hfold),
      mapM_toInt64?_eq_none hmem hnone]
    exact congrArg op.reduceFloats (map_toFloat hints)
  have hrange : ∀ m ∈ n :: ints, m.natAbs ≤ 2 ^ 64 := by
    intro m hm
    have hbounds := range_of_mem_integersAt (hcons ▸ hm)
    omega
  rw [hfloats, hcons, reduceFloats_ofInt hop hrange]

/-- An extreme is an integer exactly if all are signed 64-bit integers, and then it is exact. -/
theorem isInt_apply_extreme_iff (hop : op ∈ [min, max])
    (hints : ∀ n ∈ numbersAt path records, n.integer? ≠ none)
    (hcons : integersAt path records = n :: ints) {m : Int} :
    (op.apply records path).IsInt m ↔
      m = ints.foldl op.combineInt n ∧ ∀ n ∈ integersAt path records, FitsInt64 n := by
  by_cases hfits : ∀ n ∈ integersAt path records, FitsInt64 n
  · have hextreme : FitsInt64 (ints.foldl op.combineInt n) :=
      hfits _ (hcons ▸ foldl_mem hop n ints)
    rw [apply_extreme_of_fits hop hints hfits, hcons, and_iff_left (hcons ▸ hfits)]
    exact isInt_ofIntClamped_iff hextreme
  · have hwide : ∃ n ∈ integersAt path records, ¬ FitsInt64 n := by
      simpa only [not_forall, exists_prop] using hfits
    rw [apply_extreme_of_not_fits hop hints hcons hwide]
    refine iff_of_false ?_ fun h => hfits h.2
    rintro ⟨_, heq⟩
    cases heq

/-- Records without a number at a path do not matter to sums and extremes. -/
theorem apply_filter_number (hop : op ∈ [sum, min, max]) (path : String) (records : List Value) :
    op.apply (records.filter fun r => (r.atPath path).number?.isSome) path =
      op.apply records path := by
  have hnumbers : numbersAt path (records.filter fun r => (r.atPath path).number?.isSome) =
      numbersAt path records := by
    unfold numbersAt
    rw [List.filterMap_filter]
    refine List.filterMap_congr fun r _ => ?_
    cases (r.atPath path).number? <;> rfl
  rw [apply_eq_reduceNumbers hop, apply_eq_reduceNumbers hop, hnumbers]

/-- **Extremes of integers.** If all numbers found at a path are integers, signed or unsigned, and
some are found, their least and their greatest are found as integers exactly if all are signed
64-bit integers. Otherwise the extremes are the floats nearest to the least and to the greatest.
Records without a number at the path do not matter. -/
theorem extremes_exact (hints : ∀ n ∈ numbersAt path records, n.integer? ≠ none)
    (hfound : numbersAt path records ≠ []) :
    ∃ least greatest, IsLeast {n | n ∈ integersAt path records} least ∧
      IsGreatest {n | n ∈ integersAt path records} greatest ∧
      (∀ n, (min.apply records path).IsInt n ↔
        n = least ∧ ∀ n ∈ integersAt path records, FitsInt64 n) ∧
      (∀ n, (max.apply records path).IsInt n ↔
        n = greatest ∧ ∀ n ∈ integersAt path records, FitsInt64 n) ∧
      ((∃ n ∈ integersAt path records, ¬ FitsInt64 n) →
        min.apply records path = .number (.float (.ofInt least)) ∧
          max.apply records path = .number (.float (.ofInt greatest))) ∧
      ∀ op ∈ [min, max], op.apply (records.filter fun r => (r.atPath path).number?.isSome) path =
        op.apply records path := by
  obtain ⟨n, rest, hcons⟩ : ∃ n rest, integersAt path records = n :: rest := by
    refine List.exists_cons_of_ne_nil ?_
    obtain ⟨number, hmem⟩ := List.exists_mem_of_ne_nil _ hfound
    obtain ⟨n, hn⟩ := Option.ne_none_iff_exists'.1 (hints number hmem)
    exact List.ne_nil_of_mem (List.mem_filterMap.2 ⟨number, hmem, hn⟩)
  refine ⟨rest.foldl min.combineInt n, rest.foldl max.combineInt n, ?_, ?_,
    fun m => isInt_apply_extreme_iff (by simp) hints hcons,
    fun m => isInt_apply_extreme_iff (by simp) hints hcons, fun hwide => ⟨?_, ?_⟩,
    fun op hop => apply_filter_number (List.mem_cons_of_mem sum hop) path records⟩
  · rw [hcons]
    exact foldl_isLeast n rest
  · rw [hcons]
    exact foldl_isGreatest n rest
  · exact apply_extreme_of_not_fits (by simp) hints hcons hwide
  · exact apply_extreme_of_not_fits (by simp) hints hcons hwide

/-- The greatest of these integers is no signed 64-bit integer, and both extremes become floats. The
record with a null and the one with no field do not matter. -/
theorem extremes_exact_of_wide_range :
    let field := fun v : Value => Value.object [("v", v)]
    let wide := field (.number (.int 18446744073709551615 (by decide)))
    let small := field (.number (.int (-3) (by decide)))
    let records := [wide, field .null, small, .object []]
    (∀ n ∈ numbersAt "v" records, n.integer? ≠ none) ∧ numbersAt "v" records ≠ [] ∧
      min.apply records "v" = .number (.float (.ofInt (-3))) ∧
      max.apply records "v" = .number (.float (.ofInt 18446744073709551615)) ∧
      min.apply [wide, small] "v" = min.apply records "v" := by
  intro field wide small records
  have hints : ∀ n ∈ numbersAt "v" records, n.integer? ≠ none := by decide +kernel
  have hfound : numbersAt "v" records ≠ [] := by decide +kernel
  have hlist : integersAt "v" records = [18446744073709551615, -3] := by decide +kernel
  obtain ⟨least, greatest, hleast, hgreatest, -, -, hwide, hfilter⟩ := extremes_exact hints hfound
  rw [hlist] at hleast hgreatest
  have hleast' : IsLeast {n | n ∈ [18446744073709551615, -3]} (-3 : Int) :=
    List.min?_eq_some_iff.1 rfl
  have hgreatest' : IsGreatest {n | n ∈ [18446744073709551615, -3]} (18446744073709551615 : Int) :=
    List.max?_eq_some_iff.1 rfl
  rw [hleast.unique hleast', hgreatest.unique hgreatest'] at hwide
  obtain ⟨hmin, hmax⟩ := hwide (by rw [hlist]; decide)
  exact ⟨hints, hfound, hmin, hmax, hfilter min (by simp)⟩

/-- One integer that is no signed 64-bit integer keeps both extremes from being integers. -/
theorem extremes_rounded :
    let records := [.int 9223372036854775809 (by decide), .int 5 (by decide)].map fun n =>
      Value.object [("v", .number n)]
    (∀ n ∈ numbersAt "v" records, n.integer? ≠ none) ∧ numbersAt "v" records ≠ [] ∧
      IsLeast {n | n ∈ integersAt "v" records} 5 ∧ ¬ (min.apply records "v").IsInt 5 ∧
      IsGreatest {n | n ∈ integersAt "v" records} 9223372036854775809 ∧
      ¬ (max.apply records "v").IsInt 9223372036854775809 := by
  intro records
  have hints : ∀ n ∈ numbersAt "v" records, n.integer? ≠ none := by decide +kernel
  have hfound : numbersAt "v" records ≠ [] := by decide +kernel
  have hlist : integersAt "v" records = [9223372036854775809, 5] := by decide +kernel
  have hwide : ¬ ∀ n ∈ integersAt "v" records, FitsInt64 n := by
    rw [hlist]
    decide
  refine ⟨hints, hfound, ?_, ?_, ?_, ?_⟩
  · rw [hlist]
    exact List.min?_eq_some_iff.1 rfl
  · exact fun hint => hwide ((isInt_apply_extreme_iff (by simp) hints hlist).1 hint).2
  · rw [hlist]
    exact List.max?_eq_some_iff.1 rfl
  · exact fun hint => hwide ((isInt_apply_extreme_iff (by simp) hints hlist).1 hint).2

end Reduction

end RecordFlow
