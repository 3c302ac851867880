import RecordFlow.Event
import RecordFlow.Merge.Plan
import RecordFlow.Proofs.Buckets

/-!
# Nested-loop joins

What a merge should deliver, without an index: every right row with each left row of its key, or
alone, and after them the left rows whose key no right row has (`combinations`). A plan joins the
rows that it keeps of either side and makes output rows of the combinations (`Plan.rows`).
-/

namespace RecordFlow.Merge

/-- A left and a right row, of which one may be missing. -/
abbrev Combination := Option Value × Option Value

namespace Combination

/-- Both rows are there. -/
def paired (c : Combination) : Bool := c.1.isSome && c.2.isSome

/-- There is no left row. -/
def rightOnly (c : Combination) : Bool := c.1.isNone

/-- There is no right row. -/
def leftOnly (c : Combination) : Bool := c.2.isNone

end Combination

/-! ## Combinations -/

section Combinations

variable (lk rk : Value → Key)

/-- A right row with every left row of its key, or alone. -/
def withPartners (left : List Value) (row : Value) : List Combination :=
  match left.filter (lk · = rk row) with
  | [] => [(none, some row)]
  | partners => partners.map fun l => (some l, some row)

/-- The left rows of some keys, alone. -/
def alone (left : List Value) (ks : List Key) : List Combination :=
  ks.flatMap fun k => (left.filter (lk · = k)).map fun l => (some l, none)

/-- All combinations of two lists of rows: those of each right row in turn, and then the left rows
whose key no right row has, by the first appearance of their key. -/
def combinations (left right : List Value) : List Combination :=
  right.flatMap (withPartners lk rk left) ++
    alone lk left ((keysOf lk left).filter fun k => k ∉ right.map rk)

/-- The rows of a nested-loop join: dropped combinations are left out, and a mapper reshapes the
other rows. -/
def nestedLoop (combine : Option Value → Option Value → Option Value)
    (mapper : Option (Value → Value)) (left right : List Value) : List Value :=
  let rows := (combinations lk rk left right).filterMap fun c => combine c.1 c.2
  match mapper with
  | none => rows
  | some f => rows.map f

variable {lk rk}

theorem withPartners_of_mem {left : List Value} {row : Value} (h : rk row ∈ keysOf lk left) :
    withPartners lk rk left row =
      (left.filter (lk · = rk row)).map fun l => (some l, some row) := by
  obtain ⟨l, hl, hk⟩ := (mem_keysOf lk).1 h
  have hne : left.filter (lk · = rk row) ≠ [] :=
    List.ne_nil_of_mem (List.mem_filter.2 ⟨hl, by simpa using hk⟩)
  unfold withPartners
  split
  · next hnil => exact absurd hnil hne
  · rfl

theorem withPartners_of_not_mem {left : List Value} {row : Value} (h : rk row ∉ keysOf lk left) :
    withPartners lk rk left row = [(none, some row)] := by
  have hnil : left.filter (lk · = rk row) = [] := by
    rw [List.filter_eq_nil_iff]
    intro l hl hk
    exact h ((mem_keysOf lk).2 ⟨l, hl, by simpa using hk⟩)
  unfold withPartners
  rw [hnil]

theorem mem_alone {left : List Value} {ks : List Key} {c : Combination} :
    c ∈ alone lk left ks ↔ ∃ l ∈ left, lk l ∈ ks ∧ c = (some l, none) := by
  simp only [alone, List.mem_flatMap, List.mem_map, List.mem_filter, decide_eq_true_eq]
  constructor
  · rintro ⟨k, hk, l, ⟨hl, rfl⟩, rfl⟩
    exact ⟨l, hl, hk, rfl⟩
  · rintro ⟨l, hl, hk, rfl⟩
    exact ⟨lk l, hk, l, ⟨hl, rfl⟩, rfl⟩

@[simp] theorem alone_nil (left : List Value) : alone lk left [] = [] := rfl

theorem alone_append (left : List Value) (ks js : List Key) :
    alone lk left (ks ++ js) = alone lk left ks ++ alone lk left js := List.flatMap_append

end Combinations

/-! ## Plans -/

/-- A matcher and options disagree: rows matched by fields take no mapper, and rows matched as whole
records take no combiner. -/
inductive Disagree : Matcher → Options → ParameterFault → Prop where
  | mapper {selectors : Selectors} {options : Options} (h : options.mapper.isSome) :
    Disagree (.on selectors) options .mapperOnFields
  | combiner {method : Method} {options : Options} (h : options.combiner.isSome) :
    Disagree (.records method) options (.combinerOnRecords method)

/-- The selectors of a matcher. -/
def Matcher.selectors : Matcher → Selectors
  | .on selectors => selectors
  | .records _ => .wholeRecord

/-- What makes the rows of a merge, before they are reshaped. -/
def Matcher.combiner (options : Options) : Matcher → Combiner
  | .on _ => options.chosenCombiner
  | .records method => .method method

theorem Plan.make_eq_error_iff {matcher : Matcher} {options : Options} {e : Error} :
    Plan.make matcher options = .error e ↔
      ∃ fault, Disagree matcher options fault ∧ e = .parameterMismatch fault := by
  constructor
  · intro h
    unfold make at h
    cases matcher <;> dsimp only at h <;> split_ifs at h with hset <;> cases h
    · exact ⟨_, .mapper hset, rfl⟩
    · exact ⟨_, .combiner hset, rfl⟩
  · rintro ⟨_, ⟨hset⟩ | ⟨hset⟩, rfl⟩ <;> exact if_pos hset

/-- A matcher and options that agree make a plan. -/
theorem Plan.make_of_agree {matcher : Matcher} {options : Options}
    (h : ∀ fault, ¬ Disagree matcher options fault) :
    Plan.make matcher options =
      .ok ⟨matcher.selectors, matcher.combiner options, options.mapper, options.distinct⟩ := by
  cases matcher with
  | on selectors =>
    have hset : ¬ options.mapper.isSome := fun hset => h _ (.mapper hset)
    have hnone : options.mapper = none := by simpa using hset
    rw [hnone]
    exact if_neg hset
  | records method =>
    have hset : ¬ options.combiner.isSome := fun hset => h _ (.combiner hset)
    exact if_neg hset

/-! ## The combinations of a plan -/

namespace Plan

variable (p : Plan)

/-- The left rows that a merge keeps: all, or the first of each key. -/
def stored (left : List Value) : List Value := kept p.selectors.left p.distinct left

/-- The right rows that a merge looks up: all, or the first of each key. -/
def probed (right : List Value) : List Value := kept p.selectors.right p.distinct right

/-- The keys of the left rows, by first appearance. -/
def leftKeys (left : List Value) : List Key := keysOf p.selectors.left left

/-- The combinations made after right rows were seen and left rows of some keys were offered. -/
def made (left seen : List Value) (offered : List Key) : List Combination :=
  (p.probed seen).flatMap (withPartners p.selectors.left p.selectors.right (p.stored left)) ++
    alone p.selectors.left (p.stored left) (offered.filter fun k => k ∉ seen.map p.selectors.right)

/-- The rows made of combinations. -/
def outputs (cs : List Combination) : List Value := cs.filterMap fun c => p.output c.1 c.2

/-- All combinations of a merge. -/
def allMade (left right : List Value) : List Combination := p.made left right (p.leftKeys left)

/-- All rows of a merge. -/
def rows (left right : List Value) : List Value := p.outputs (p.allMade left right)

/-- The counters after right rows were seen, left rows of some keys were offered, and so many rows
were delivered. -/
def tally (left seen : List Value) (offered : List Key) (delivered : Nat) : MergeStats where
  leftRows := (p.stored left).length
  probes := (p.probed seen).length
  skippedDuplicates := seen.length - (p.probed seen).length
  matchedPairs := (p.made left seen offered).countP Combination.paired
  rightOnly := (p.made left seen offered).countP Combination.rightOnly
  leftOnly := (p.made left seen offered).countP Combination.leftOnly
  emitted := delivered

/-- The counters of a whole merge. -/
def account (left right : List Value) : MergeStats :=
  p.tally left right (p.leftKeys left) (p.rows left right).length

variable {p}

section Counters

variable {left seen : List Value} {row : Value} {delivered : Nat}

/-- A right row that was looked up adds its combinations. -/
theorem made_concat (h : p.probed (seen ++ [row]) = p.probed seen ++ [row]) :
    p.made left (seen ++ [row]) [] =
      p.made left seen [] ++
        withPartners p.selectors.left p.selectors.right (p.stored left) row := by
  unfold made
  rw [h]
  simp

/-- A right row that was not looked up adds nothing. -/
theorem made_concat_skip (h : p.probed (seen ++ [row]) = p.probed seen) :
    p.made left (seen ++ [row]) [] = p.made left seen [] := by
  unfold made
  rw [h]
  simp

/-- Offering a key adds its left rows, unless a right row has the key. -/
theorem made_offer (ks : List Key) (k : Key) :
    p.made left seen (ks ++ [k]) =
      if k ∈ seen.map p.selectors.right then p.made left seen ks
      else p.made left seen ks ++ alone p.selectors.left (p.stored left) [k] := by
  unfold made
  rw [List.filter_append, alone_append, ← List.append_assoc]
  split_ifs with h
  · rw [List.filter_cons_of_neg (by simpa using h), List.filter_nil, alone_nil, List.append_nil]
  · rw [List.filter_cons_of_pos (by simpa using h), List.filter_nil]

theorem tally_skip (h : p.probed (seen ++ [row]) = p.probed seen) :
    p.tally left (seen ++ [row]) [] delivered =
      { p.tally left seen [] delivered with
        skippedDuplicates := (p.tally left seen [] delivered).skippedDuplicates + 1 } := by
  have hle : (p.probed seen).length ≤ seen.length := length_kept_le _ _ _
  unfold tally
  rw [made_concat_skip h, h, List.length_append, List.length_singleton]
  simp only [MergeStats.mk.injEq, true_and, and_true]
  omega

theorem tally_partners (h : p.probed (seen ++ [row]) = p.probed seen ++ [row])
    (hk : p.selectors.right row ∈ p.leftKeys left) :
    p.tally left (seen ++ [row]) [] delivered =
      { p.tally left seen [] delivered with
        probes := (p.tally left seen [] delivered).probes + 1
        matchedPairs := (p.tally left seen [] delivered).matchedPairs +
          ((p.stored left).filter (p.selectors.left · = p.selectors.right row)).length } := by
  have hk' : p.selectors.right row ∈ keysOf p.selectors.left (p.stored left) := by
    unfold stored
    rwa [keysOf_kept]
  unfold tally
  rw [made_concat h, withPartners_of_mem hk', h, List.length_append, List.length_append,
    List.length_singleton]
  simp [List.countP_map, Function.comp_def, Combination.paired, Combination.rightOnly,
    Combination.leftOnly]

theorem tally_rightOnly (h : p.probed (seen ++ [row]) = p.probed seen ++ [row])
    (hk : p.selectors.right row ∉ p.leftKeys left) :
    p.tally left (seen ++ [row]) [] delivered =
      { p.tally left seen [] delivered with
        probes := (p.tally left seen [] delivered).probes + 1
        rightOnly := (p.tally left seen [] delivered).rightOnly + 1 } := by
  have hk' : p.selectors.right row ∉ keysOf p.selectors.left (p.stored left) := by
    unfold stored
    rwa [keysOf_kept]
  unfold tally
  rw [made_concat h, withPartners_of_not_mem hk', h, List.length_append, List.length_append,
    List.length_singleton]
  simp [Combination.paired, Combination.rightOnly, Combination.leftOnly]

theorem tally_offer (ks : List Key) {k : Key} (hk : k ∉ seen.map p.selectors.right) :
    p.tally left seen (ks ++ [k]) delivered =
      { p.tally left seen ks delivered with
        leftOnly := (p.tally left seen ks delivered).leftOnly +
          ((p.stored left).filter (p.selectors.left · = k)).length } := by
  unfold tally
  rw [made_offer, if_neg hk]
  simp [alone, List.countP_map, Function.comp_def, Combination.paired, Combination.rightOnly,
    Combination.leftOnly]

end Counters

theorem outputs_append (cs ds : List Combination) :
    p.outputs (cs ++ ds) = p.outputs cs ++ p.outputs ds := List.filterMap_append

theorem nodup_leftKeys (left : List Value) : (p.leftKeys left).Nodup := nodup_keysOf _ _

theorem mem_leftKeys_iff {left : List Value} {k : Key} :
    k ∈ p.leftKeys left ↔ k ∈ keysOf p.selectors.left (p.stored left) := by
  unfold leftKeys stored
  rw [keysOf_kept]

/-- A merge joins the rows it keeps of either side. -/
theorem allMade_eq_combinations (left right : List Value) :
    p.allMade left right =
      combinations p.selectors.left p.selectors.right (p.stored left) (p.probed right) := by
  unfold allMade made combinations stored probed leftKeys
  rw [keysOf_kept]
  congr 2
  refine List.filter_congr fun k _ => ?_
  simp only [key_mem_map_kept]

/-- A mapper reshapes the rows that a combiner makes. -/
theorem rows_eq_nestedLoop (left right : List Value) :
    p.rows left right =
      nestedLoop p.selectors.left p.selectors.right p.combiner.apply p.mapper (p.stored left)
        (p.probed right) := by
  unfold rows outputs nestedLoop
  rw [allMade_eq_combinations]
  unfold output
  cases p.mapper with
  | none => simp
  | some f => simp [List.map_filterMap]

end Plan

end RecordFlow.Merge
