import RecordFlow.Proofs.Dataset.Join
import RecordFlow.Proofs.Dataset.Reachable
import RecordFlow.Proofs.Merge.Selectors

/-!
# Merges that count each key once

A merge may keep one left row of each key and look each right key up once. That is as if both
datasets had first been made distinct by the values that the matcher compares their rows by
(`Dataset.distinct_merge_eq`): the rows are the same, and so are the counters, except that a merge
of distinct rows has no duplicates to skip.
-/

namespace RecordFlow

/-! ## What rows are compared by -/

namespace Merge

/-- The values that a matcher compares left and right rows by. -/
inductive Matcher.ComparesBy : Matcher → (Value → Value) → (Value → Value) → Prop where
  | paths (pairs : List PathPair) :
    ComparesBy (.on (.ofPairs pairs)) (pathsValue (pairs.map PathPair.left))
      (pathsValue (pairs.map PathPair.right))
  | custom (left right : Value → Value) : ComparesBy (.on (.custom left right)) left right
  | wholeRecord : ComparesBy (.on .wholeRecord) id id
  | records (method : Method) : ComparesBy (.records method) id id

section Compares

variable {matcher : Matcher} {leftValue rightValue : Value → Value}

theorem Matcher.ComparesBy.left_eq (h : matcher.ComparesBy leftValue rightValue) :
    matcher.selectors.left = fun row => .ofValue (leftValue row) := by
  cases h with
  | paths pairs => exact funext (pathsKey_eq _)
  | _ => rfl

theorem Matcher.ComparesBy.right_eq (h : matcher.ComparesBy leftValue rightValue) :
    matcher.selectors.right = fun row => .ofValue (rightValue row) := by
  cases h with
  | paths pairs => exact funext (pathsKey_eq _)
  | _ => rfl

end Compares

/-! ## Plans -/

namespace Plan

variable (p : Plan) (left right : List Value)

/-- Counting each key once is a choice of its own. -/
theorem make_with_distinct (matcher : Matcher) (options : Options) (distinct : Bool) :
    make matcher { options with distinct } =
      (make matcher options).map fun p => { p with distinct } := by
  cases matcher <;> unfold make <;> dsimp only <;> split_ifs <;> rfl

theorem selectors_of_make {matcher : Matcher} {options : Options}
    (h : make matcher options = .ok p) : p.selectors = matcher.selectors := by
  cases matcher <;> unfold make at h <;> dsimp only at h <;> split_ifs at h <;> cases h <;> rfl

theorem allMade_firsts :
    { p with distinct := false }.allMade (firsts p.selectors.left left)
        (firsts p.selectors.right right) =
      { p with distinct := true }.allMade left right := by
  rw [allMade_eq_combinations, allMade_eq_combinations]
  rfl

/-- Keeping all of the first rows of each key is keeping the first row of each key. -/
theorem rows_firsts :
    { p with distinct := false }.rows (firsts p.selectors.left left)
        (firsts p.selectors.right right) =
      { p with distinct := true }.rows left right :=
  congrArg (outputs _) (allMade_firsts p left right)

theorem account_firsts :
    { p with distinct := false }.account (firsts p.selectors.left left)
        (firsts p.selectors.right right) =
      { { p with distinct := true }.account left right with skippedDuplicates := 0 } := by
  have hmade := allMade_firsts p left right
  have hrows := rows_firsts p left right
  have hcount : ∀ test : Combination → Bool, List.countP test _ = List.countP test _ :=
    fun test => congrArg (List.countP test) hmade
  unfold account tally
  rw [MergeStats.mk.injEq]
  exact ⟨rfl, rfl, Nat.sub_self _, hcount _, hcount _, hcount _, congrArg List.length hrows⟩

end Plan

end Merge

/-! ## Datasets -/

/-- After a call that succeeds, the result is that of the next call. -/
theorem Outcome.result_andThen {α β : Type} (o : Outcome α) (next : α → Dataset → Outcome β) {a : α}
    (h : o.result = .ok a) : (o.andThen next).result = (next a o.dataset).result := by
  unfold andThen
  rw [h]

namespace Dataset

variable {d incoming : Dataset} {rows left right : List Value} {matcher : Merge.Matcher}

/-- Making records distinct keeps the first one of each key. -/
theorem Holds.distinct (h : d.Holds rows) (keyOf : Value → Value) :
    (d.distinct keyOf).dataset.Holds (firsts (fun row => .ofValue (keyOf row)) rows) := by
  refine ⟨h.1, ?_⟩
  show (d.data.mapBase (.distinct keyOf) d.level).toNode = _
  rw [Data.toNode_mapBase (.distinct keyOf), h.1, h.2]
  show Node.group ((Stage.distinct keyOf).onList (rows.map .record)) = _
  rw [Stage.Chained.onList_distinct, firsts_map]
  rfl

/-- Making records distinct pulls nothing, and what pulling sets free stays the same. -/
theorem released_distinct (hlevel : d.level = 1) (keyOf : Value → Value) :
    (d.distinct keyOf).dataset.data.released = d.data.released := by
  show (d.data.mapBase (.distinct keyOf) d.level).released = _
  rw [hlevel]
  cases d.data with
  | item v => rfl
  | nodes feed =>
    show (Stage.distinct keyOf feed).released = feed.released
    exact Feed.released_gather _ feed

/-- What a merge of two datasets holds, and what getting it sets free. -/
theorem Holds.merge {options : Merge.Options} {plan : Merge.Plan} (hd : d.Holds left)
    (hi : incoming.Holds right) (hplan : Merge.Plan.make matcher options = .ok plan) :
    (d.merge incoming matcher options).result = .ok () ∧
      (d.merge incoming matcher options).dataset.Holds (plan.rows left right) ∧
      (d.merge incoming matcher options).dataset.get.released =
        d.data.released ++ incoming.data.released ++
          Merge.closing d.observer (plan.account left right) ++
          Emission.announce d.observer (.materialized 1) := by
  rw [merge_of_plan hd.1 hi.1 hplan]
  let feed := Merge.feeds plan d.observer d.data.toFeed incoming.data.toFeed
  have hholds : Holds { d with data := .nodes feed } (plan.rows left right) := by
    refine ⟨hd.1, congrArg Node.group ?_⟩
    show feed.items = _
    rw [Merge.items_feeds, Merge.rowsOf_toFeed hd, Merge.rowsOf_toFeed hi]
  refine ⟨rfl, hholds, ?_⟩
  obtain ⟨v, -, hget⟩ := hholds.nested.get_eq
  dsimp only
  rw [hget]
  show (Merge.feeds plan _ _ _).released ++ Emission.announce _ (.materialized d.level) = _
  rw [Merge.released_feeds, Merge.rowsOf_toFeed hd, Merge.rowsOf_toFeed hi, hd.1]
  rfl

/-- **Counting each key once is making both sides distinct first**, by the values that the matcher
compares. Either both merges are refused for the same reason, or they deliver the same rows and
report the same counters, but for the duplicates that were skipped. -/
theorem distinct_merge_eq {leftValue rightValue : Value → Value} (hd : Reachable d)
    (hi : Reachable incoming) (hlevel : d.level = 1) (hlevel' : incoming.level = 1)
    (hmatcher : matcher.ComparesBy leftValue rightValue) (options : Merge.Options) :
    let merged := d.merge incoming matcher { options with distinct := true }
    let plain := (d.distinct leftValue).dataset.merge (incoming.distinct rightValue).dataset matcher
      { options with distinct := false }
    (merged.andThen fun _ d => d.get).result = (plain.andThen fun _ d => d.get).result ∧
      ((∀ fault, ¬ Merge.Disagree matcher options fault) →
        ∃ (rows : List Value) (stats : MergeStats),
          (merged.andThen fun _ d => d.get).result = .ok (.array rows) ∧
            merged.dataset.get.released =
              d.data.released ++ incoming.data.released ++ Merge.closing d.observer stats ++
                Emission.announce d.observer (.materialized 1) ∧
            plain.dataset.get.released =
              d.data.released ++ incoming.data.released ++
                Merge.closing d.observer { stats with skippedDuplicates := 0 } ++
                Emission.announce d.observer (.materialized 1)) := by
  intro merged plain
  obtain ⟨left, hleft⟩ := hd.nested.holds hlevel
  obtain ⟨right, hright⟩ := hi.nested.holds hlevel'
  have hleft' := hleft.distinct leftValue
  have hright' := hright.distinct rightValue
  have hmake := Merge.Plan.make_with_distinct matcher options
  cases hplan : Merge.Plan.make matcher options with
  | error e =>
    rw [hplan] at hmake
    have hmerged : merged = ⟨d, [], .error e⟩ := merge_of_error hlevel hlevel' (hmake true)
    have hplain : plain = ⟨_, [], .error e⟩ := merge_of_error hleft'.1 hright'.1 (hmake false)
    refine ⟨by rw [hmerged, hplain]; rfl, fun hagree => ?_⟩
    obtain ⟨fault, hfault, -⟩ := Merge.Plan.make_eq_error_iff.1 hplan
    exact absurd hfault (hagree fault)
  | ok plan =>
    rw [hplan] at hmake
    have hselectors := plan.selectors_of_make hplan
    rw [← hmatcher.left_eq, ← hselectors] at hleft'
    rw [← hmatcher.right_eq, ← hselectors] at hright'
    obtain ⟨hok, hrows, hreleased⟩ := hleft.merge hright (hmake true)
    obtain ⟨hok', hrows', hreleased'⟩ := hleft'.merge hright' (hmake false)
    rw [plan.rows_firsts left right] at hrows'
    rw [released_distinct hlevel, released_distinct hlevel', plan.account_firsts] at hreleased'
    have hget := (merged.result_andThen (fun _ d => d.get) hok).trans hrows.get
    have hget' := (plain.result_andThen (fun _ d => d.get) hok').trans hrows'.get
    exact ⟨hget.trans hget'.symm, fun _ => ⟨_, _, hget, hreleased, hreleased'⟩⟩

/-- Rows are matched by two pairs of paths, and both sides repeat a key. -/
theorem distinct_merge_eq_of_two_pairs :
    let left := fun k v : String => Value.object [("k", .string k), ("v", .string v)]
    let right := fun id w : String => Value.object [("id", .string id), ("w", .string w)]
    let d := { ofRecords [left "a" "1", left "a" "1", left "b" "2"] with
      observer := some (.named "rows") }
    let incoming := ofRecords [right "a" "1", right "c" "1", right "a" "1"]
    let pairs : List Merge.PathPair := [⟨"k", "id"⟩, ⟨"v", "w"⟩]
    let options : Merge.Options := { combiner := some (.method .fullOuter) }
    let merged := d.merge incoming (.on (.ofPairs pairs)) { options with distinct := true }
    let plain := (d.distinct (Merge.pathsValue ["k", "v"])).dataset.merge
      (incoming.distinct (Merge.pathsValue ["id", "w"])).dataset (.on (.ofPairs pairs))
      { options with distinct := false }
    Reachable d ∧ Reachable incoming ∧
      (merged.andThen fun _ d => d.get).result = (plain.andThen fun _ d => d.get).result ∧
      ∃ rows, (merged.andThen fun _ d => d.get).result = .ok (.array rows) := by
  intro left right d incoming pairs options merged plain
  have hd : Reachable d := .source (.records _) (some (.named "rows")) rfl
  have hi : Reachable incoming := .source (.records _) none rfl
  have hagree : ∀ fault, ¬ Merge.Disagree (.on (.ofPairs pairs)) options fault := by
    rintro _ ⟨hset⟩
    cases hset
  obtain ⟨hsame, hrows⟩ := distinct_merge_eq hd hi rfl rfl (.paths pairs) options
  obtain ⟨rows, -, hget, -⟩ := hrows hagree
  exact ⟨hd, hi, hsame, rows, hget⟩

end Dataset

end RecordFlow
