import RecordFlow.Merge.Run
import RecordFlow.Proofs.Feed
import RecordFlow.Proofs.Merge.Join
import RecordFlow.Proofs.Node

/-!
# Runs of a merge against nested-loop joins

What a single turn of a run may do is a list of rules (`Run.Rule`). A run in progress agrees with
the right rows it has seen and the rows it has delivered (`Run.Inv`): the index holds the left rows,
a bucket is marked when its key was seen, the rows delivered and ready are those of the combinations
made so far, and the counters count those. Every rule keeps this, so the whole output is that of the
nested-loop join (`Run.Inv.output_items`).
-/

namespace RecordFlow.Merge

/-- What is set free when the output of a merge is found to be exhausted. -/
def closing (observer : Option Observer) (stats : MergeStats) : List Emission :=
  .log .debug ("merge finished: " ++ stats.summary) ::
    Emission.announce observer (.mergeFinished stats)

/-- The rows of a side of a merge. -/
def rowsOf (feed : Feed Node) : List Value := feed.items.filterMap Node.record?

@[simp] theorem rowsOf_finish (es : List Emission) : rowsOf (.finish es) = [] := rfl

@[simp] theorem rowsOf_ofList (rows : List Value) : rowsOf (.ofList (rows.map .record)) = rows := by
  unfold rowsOf
  rw [Feed.items_ofList, Node.filterMap_record?]

namespace Run

/-! ## Rules -/

/-- What a turn of a run whose left rows are gathered may do. -/
inductive Rule : Run → Turn → Prop where
  | deliver {r : Run} {v : Value} {rest : List Value} (hp : r.pending = v :: rest) :
    Rule r (.row v
      { r with pending := rest, stats := { r.stats with emitted := r.stats.emitted + 1 } })
  | probe {r : Run} {es : List Emission} {row : Value} {right : Feed Node} (hp : r.pending = [])
    (hphase : r.phase = .probing) (hright : r.right = .yield es (.record row) right) :
    Rule r (.silent es ({ r with right := right }.probe row))
  | pass {r : Run} {es : List Emission} {items : List Node} {right : Feed Node}
    (hp : r.pending = []) (hphase : r.phase = .probing)
    (hright : r.right = .yield es (.group items) right) :
    Rule r (.silent es { r with right := right })
  | exhaust {r : Run} {es : List Emission} (hp : r.pending = []) (hphase : r.phase = .probing)
    (hright : r.right = .finish es) :
    Rule r (.silent es { r with right := .finish [], phase := .leftOnly 0 })
  | offer {r : Run} {i : Nat} (hp : r.pending = []) (hphase : r.phase = .leftOnly i)
    (hi : i < r.matched.length) :
    Rule r (.silent [] { r.offerLeftOnly i with phase := .leftOnly (i + 1) })
  | close {r : Run} {i : Nat} (hp : r.pending = []) (hphase : r.phase = .leftOnly i)
    (hi : r.matched.length ≤ i) :
    Rule r (.silent (closing r.observer r.stats) { r with phase := .done })
  | halt {r : Run} (hp : r.pending = []) (hphase : r.phase = .done) : Rule r .over

theorem gatherLeft_of_gathered {r : Run} (h : r.left = none) : r.gatherLeft = ([], r) := by
  unfold gatherLeft
  rw [h]

/-- Every turn follows a rule. -/
theorem rule_turn {r : Run} (h : r.left = none) : Rule r r.turn := by
  unfold turn
  split
  · next v rest hp => exact .deliver hp
  · next hp =>
    split
    · next hphase =>
      rw [gatherLeft_of_gathered h]
      dsimp only
      split
      · next es row right hright => exact .probe hp hphase hright
      · next es items right hright => exact .pass hp hphase hright
      · next es hright => exact .exhaust hp hphase hright
    · next i hphase =>
      split_ifs with hi
      · exact .offer hp hphase hi
      · exact .close hp hphase (by omega)
    · next hphase => exact .halt hp hphase

/-! ## What one look-up makes ready -/

section Probe

variable {plan : Plan} {left seen : List Value} {row : Value}

/-- Looking a row up in the index gives the rows of its combinations. -/
theorem cross_ofList :
    ((Buckets.ofList plan.selectors.left plan.distinct left).cross row plan.selectors.right
        fun l x => plan.output l (some x)).filterMap id =
      plan.outputs
        (withPartners plan.selectors.left plan.selectors.right (plan.stored left) row) := by
  unfold Buckets.cross Plan.outputs
  rw [Buckets.bucket?_ofList]
  by_cases h : plan.selectors.right row ∈ keysOf plan.selectors.left left
  · rw [if_pos h, withPartners_of_mem (Plan.mem_leftKeys_iff.1 h)]
    simp [List.filterMap_map, Plan.stored]
  · rw [if_neg h, withPartners_of_not_mem fun h' => h (Plan.mem_leftKeys_iff.2 h')]
    simp [List.filterMap_cons]

theorem probed_concat :
    plan.probed (seen ++ [row]) =
      if plan.distinct ∧ plan.selectors.right row ∈ seen.map plan.selectors.right then
        plan.probed seen
      else plan.probed seen ++ [row] := kept_concat _ _ _ _

/-- The marks of buckets after a look-up that found one. -/
theorem marks_set {ks : List Key} (hks : ks.Nodup) {key : Key} {i : Nat}
    (h : ks.findIdx? (· == key) = some i) (p : Key → Bool) :
    (ks.map p).set i true = ks.map fun k => p k || decide (k = key) := by
  obtain ⟨hi, hki, -⟩ := List.findIdx?_eq_some_iff_getElem.1 h
  have hkey : ks[i] = key := by simpa using hki
  refine List.ext_getElem (by simp) fun j hj hj' => ?_
  rw [List.getElem_set, List.getElem_map]
  by_cases hij : i = j
  · subst hij
    simp [hkey]
  · have hlt : j < ks.length := by simpa using hj
    have hne : ks[j] ≠ key := by
      intro e
      exact hij ((hks.getElem_inj_iff).1 (hkey.trans e.symm))
    simp [hij, hne]

end Probe

/-! ## The invariant -/

/-- The keys whose bucket was offered alone. -/
def offered (r : Run) (ks : List Key) : List Key :=
  match r.phase with
  | .probing => []
  | .leftOnly i => ks.take i
  | .done => ks

/-- The right rows that a run has not taken up. -/
def remaining (r : Run) : List Value := rowsOf r.right

/-- A run agrees with the left rows it gathered, the right rows it has seen and the rows it has
delivered. -/
structure Inv (plan : Plan) (observer : Option Observer) (left seen delivered : List Value)
    (r : Run) : Prop where
  plan_eq : r.plan = plan
  observer_eq : r.observer = observer
  gathered : r.left = none
  store_eq : r.store = .ofList plan.selectors.left plan.distinct left
  /-- The keys looked up are those of the rows seen. -/
  processed_iff : plan.distinct = true →
    ∀ k, k ∈ r.processed ↔ k ∈ seen.map plan.selectors.right
  /-- There is one mark for each bucket, and it says whether a row of the key was seen. -/
  matched_eq : r.matched =
    (plan.leftKeys left).map fun k => decide (k ∈ seen.map plan.selectors.right)
  exhausted : r.phase ≠ .probing → r.right = .finish []
  /-- Rows delivered and rows ready are those of the combinations made so far. -/
  rows_eq : delivered ++ r.pending =
    plan.outputs (plan.made left seen (r.offered (plan.leftKeys left)))
  stats_eq : r.stats = plan.tally left seen (r.offered (plan.leftKeys left)) delivered.length

namespace Inv

variable {plan : Plan} {observer : Option Observer} {left seen delivered : List Value} {r : Run}

theorem size_eq (h : Inv plan observer left seen delivered r) :
    r.matched.length = (plan.leftKeys left).length := by
  rw [h.matched_eq, List.length_map]

theorem offered_probing (h : r.phase = .probing) (ks : List Key) : r.offered ks = [] := by
  unfold offered
  rw [h]

/-- Once all is done, every combination was made and every row delivered. -/
theorem delivered_eq (h : Inv plan observer left seen delivered r) (hp : r.pending = [])
    (ho : r.offered (plan.leftKeys left) = plan.leftKeys left) :
    delivered = plan.rows left seen := by
  have hrows := h.rows_eq
  rw [hp, List.append_nil, ho] at hrows
  exact hrows

/-! ### Every rule keeps the invariant -/

theorem withRight (h : Inv plan observer left seen delivered r) (hphase : r.phase = .probing)
    (right : Feed Node) : Inv plan observer left seen delivered { r with right := right } :=
  { h with exhausted := fun hne => absurd hphase hne }

theorem deliver {v : Value} {rest : List Value} (h : Inv plan observer left seen delivered r)
    (hp : r.pending = v :: rest) :
    Inv plan observer left seen (delivered ++ [v])
      { r with pending := rest, stats := { r.stats with emitted := r.stats.emitted + 1 } } where
  plan_eq := h.plan_eq
  observer_eq := h.observer_eq
  gathered := h.gathered
  store_eq := h.store_eq
  processed_iff := h.processed_iff
  matched_eq := h.matched_eq
  exhausted := h.exhausted
  rows_eq := by
    have hrows := h.rows_eq
    rw [hp] at hrows
    rw [List.append_assoc]
    exact hrows
  stats_eq := by
    rw [List.length_append, List.length_singleton, h.stats_eq]
    rfl

/-- A row whose key was looked up before is only counted. -/
theorem probe_of_seen (h : Inv plan observer left seen delivered r) {row : Value}
    (hd : plan.distinct = true) (hk : plan.selectors.right row ∈ seen.map plan.selectors.right) :
    r.probe row =
      { r with stats := { r.stats with skippedDuplicates := r.stats.skippedDuplicates + 1 } } := by
  have hseen : (r.plan.distinct && r.processed.contains (r.plan.selectors.right row)) = true := by
    rw [h.plan_eq, hd, Bool.true_and, List.contains_iff_mem, h.processed_iff hd]
    exact hk
  unfold Run.probe
  exact if_pos hseen

/-- A row whose key is looked up makes its combinations, and its bucket is marked. -/
theorem probe_of_new (h : Inv plan observer left seen delivered r) {row : Value}
    (hnew : ¬ (plan.distinct = true ∧
      plan.selectors.right row ∈ seen.map plan.selectors.right)) :
    r.probe row =
      { r with
        processed :=
          if plan.distinct then r.processed ++ [plan.selectors.right row] else r.processed
        pending := plan.outputs
          (withPartners plan.selectors.left plan.selectors.right (plan.stored left) row)
        matched := (plan.leftKeys left).map fun k =>
          decide (k ∈ seen.map plan.selectors.right) || decide (k = plan.selectors.right row)
        stats :=
          if plan.selectors.right row ∈ plan.leftKeys left then
            { r.stats with
              probes := r.stats.probes + 1
              matchedPairs := r.stats.matchedPairs +
                ((plan.stored left).filter
                  (plan.selectors.left · = plan.selectors.right row)).length }
          else
            { r.stats with
              probes := r.stats.probes + 1
              rightOnly := r.stats.rightOnly + 1 } } := by
  have hseen :
      ¬ (r.plan.distinct && r.processed.contains (r.plan.selectors.right row)) = true := by
    rw [h.plan_eq, Bool.and_eq_true, List.contains_iff_mem]
    exact fun hc => hnew ⟨hc.1, (h.processed_iff hc.1 _).1 hc.2⟩
  unfold Run.probe
  dsimp only
  rw [if_neg hseen, h.plan_eq, h.store_eq, cross_ofList, Buckets.index?_ofList, h.matched_eq]
  by_cases hk : plan.selectors.right row ∈ plan.leftKeys left
  · obtain ⟨i, hi⟩ :
        ∃ i, (plan.leftKeys left).findIdx? (· == plan.selectors.right row) = some i := by
      rw [← Option.isSome_iff_exists, List.findIdx?_isSome, List.any_eq_true]
      exact ⟨_, hk, by simp⟩
    have hki : (plan.leftKeys left)[i]? = some (plan.selectors.right row) := by
      obtain ⟨hlt, hki, -⟩ := List.findIdx?_eq_some_iff_getElem.1 hi
      rw [List.getElem?_eq_getElem hlt]
      simpa using hki
    have hmarks := marks_set (Plan.nodup_leftKeys left) hi
      fun k => decide (k ∈ seen.map plan.selectors.right)
    have hbucket : ((Buckets.ofList plan.selectors.left plan.distinct left).bucketAt? i).getD [] =
        (plan.stored left).filter (plan.selectors.left · = plan.selectors.right row) := by
      rw [Buckets.bucketAt?_ofList, show (keysOf plan.selectors.left left)[i]? = _ from hki]
      rfl
    rw [if_pos hk, ← hmarks, show (keysOf plan.selectors.left left).findIdx? _ = _ from hi]
    dsimp only
    rw [hbucket]
  · have hnone :
        (keysOf plan.selectors.left left).findIdx? (· == plan.selectors.right row) = none := by
      rw [List.findIdx?_eq_none_iff]
      intro k hk'
      simp only [beq_eq_false_iff_ne]
      exact fun e => hk (e ▸ hk')
    have hmarks : ∀ k ∈ plan.leftKeys left,
        decide (k ∈ seen.map plan.selectors.right) =
          (decide (k ∈ seen.map plan.selectors.right) ||
            decide (k = plan.selectors.right row)) := by
      intro k hk'
      have hne : k ≠ plan.selectors.right row := fun e => hk (e ▸ hk')
      simp [hne]
    rw [if_neg hk, hnone, List.map_congr_left hmarks]

/-- Taking up a right row extends what was seen by it. -/
theorem probe (h : Inv plan observer left seen delivered r) (hp : r.pending = [])
    (hphase : r.phase = .probing) (row : Value) :
    Inv plan observer left (seen ++ [row]) delivered (r.probe row) := by
  have hoff : r.offered (plan.leftKeys left) = [] := offered_probing hphase _
  have hrows := h.rows_eq
  have hstats := h.stats_eq
  rw [hp, List.append_nil, hoff] at hrows
  rw [hoff] at hstats
  have hmap : (seen ++ [row]).map plan.selectors.right =
      seen.map plan.selectors.right ++ [plan.selectors.right row] := by simp
  -- a key that was looked up before only counts as skipped
  by_cases hdup : plan.distinct = true ∧
      plan.selectors.right row ∈ seen.map plan.selectors.right
  · have hkeys : ∀ k, k ∈ (seen ++ [row]).map plan.selectors.right ↔
        k ∈ seen.map plan.selectors.right := by
      intro k
      rw [hmap, List.mem_append, List.mem_singleton]
      exact ⟨fun hk => hk.elim id fun e => e ▸ hdup.2, .inl⟩
    have hprobed : plan.probed (seen ++ [row]) = plan.probed seen := by
      rw [probed_concat, if_pos hdup]
    rw [h.probe_of_seen hdup.1 hdup.2]
    exact
      { h with
        processed_iff := fun hd k => (h.processed_iff hd k).trans (hkeys k).symm
        matched_eq := by simp only [hkeys]; exact h.matched_eq
        rows_eq := by
          show delivered ++ r.pending = plan.outputs (plan.made left (seen ++ [row]) (r.offered _))
          rw [hoff, Plan.made_concat_skip hprobed, hp, List.append_nil]
          exact hrows
        stats_eq := by
          show _ = plan.tally left (seen ++ [row]) (r.offered _) delivered.length
          rw [hoff, Plan.tally_skip hprobed, hstats] }
  · have hprobed : plan.probed (seen ++ [row]) = plan.probed seen ++ [row] := by
      rw [probed_concat, if_neg hdup]
    rw [h.probe_of_new hdup]
    exact
      { h with
        processed_iff := by
          intro hd k
          rw [hmap, if_pos hd, List.mem_append, List.mem_append, h.processed_iff hd]
        matched_eq := by
          refine List.map_congr_left fun k _ => ?_
          rw [hmap]
          simp only [List.mem_append, List.mem_singleton, Bool.decide_or]
        rows_eq := by
          show _ = plan.outputs (plan.made left (seen ++ [row]) (r.offered _))
          rw [hoff, Plan.made_concat hprobed, Plan.outputs_append, hrows]
        stats_eq := by
          show _ = plan.tally left (seen ++ [row]) (r.offered _) delivered.length
          rw [hoff]
          by_cases hk : plan.selectors.right row ∈ plan.leftKeys left
          · rw [Plan.tally_partners hprobed hk, ← hstats]
            exact if_pos hk
          · rw [Plan.tally_rightOnly hprobed hk, ← hstats]
            exact if_neg hk }

theorem exhaust (h : Inv plan observer left seen delivered r)
    (hphase : r.phase = .probing) :
    Inv plan observer left seen delivered { r with right := .finish [], phase := .leftOnly 0 } :=
  { h with
    exhausted := fun _ => rfl
    rows_eq := by
      have hrows := h.rows_eq
      rw [offered_probing hphase] at hrows
      exact hrows
    stats_eq := by
      have hstats := h.stats_eq
      rw [offered_probing hphase] at hstats
      exact hstats }

/-- A bucket that was never looked up makes its left rows ready, any other makes nothing ready. -/
theorem offerLeftOnly_eq (h : Inv plan observer left seen delivered r) {i : Nat} {k : Key}
    (hk : (plan.leftKeys left)[i]? = some k) :
    r.offerLeftOnly i =
      if k ∈ seen.map plan.selectors.right then r
      else
        { r with
          pending := plan.outputs (alone plan.selectors.left (plan.stored left) [k])
          stats :=
            { r.stats with
              leftOnly := r.stats.leftOnly +
                ((plan.stored left).filter (plan.selectors.left · = k)).length } } := by
  have hmark : r.matched[i]?.getD true = decide (k ∈ seen.map plan.selectors.right) := by
    rw [h.matched_eq, List.getElem?_map, hk]
    rfl
  have hbucket : (r.store.bucketAt? i).getD [] =
      (plan.stored left).filter (plan.selectors.left · = k) := by
    rw [h.store_eq, Buckets.bucketAt?_ofList,
      show (keysOf plan.selectors.left left)[i]? = _ from hk]
    rfl
  unfold offerLeftOnly
  dsimp only
  rw [hmark, hbucket, h.plan_eq]
  by_cases hseen : k ∈ seen.map plan.selectors.right
  · rw [if_pos (by simpa using hseen), if_pos hseen]
  · rw [if_neg (by simpa using hseen), if_neg hseen]
    simp [alone, Plan.outputs, List.filterMap_map]

theorem offer (h : Inv plan observer left seen delivered r) (hp : r.pending = []) {i : Nat}
    (hphase : r.phase = .leftOnly i) (hi : i < r.matched.length) :
    Inv plan observer left seen delivered
      { r.offerLeftOnly i with phase := .leftOnly (i + 1) } := by
  rw [h.size_eq] at hi
  have hk : (plan.leftKeys left)[i]? = some (plan.leftKeys left)[i] := List.getElem?_eq_getElem hi
  have hoff : r.offered (plan.leftKeys left) = (plan.leftKeys left).take i := by
    unfold offered
    rw [hphase]
  have hnext : (plan.leftKeys left).take (i + 1) =
      (plan.leftKeys left).take i ++ [(plan.leftKeys left)[i]] := by
    rw [List.take_add_one, hk]
    rfl
  have hright : r.right = .finish [] := h.exhausted (by rw [hphase]; simp)
  have hrows := h.rows_eq
  have hstats := h.stats_eq
  rw [hp, List.append_nil, hoff] at hrows
  rw [hoff] at hstats
  rw [h.offerLeftOnly_eq hk]
  split_ifs with hseen
  · exact
      { h with
        exhausted := fun _ => hright
        rows_eq := by
          show delivered ++ r.pending =
            plan.outputs (plan.made left seen ((plan.leftKeys left).take (i + 1)))
          rw [hnext, Plan.made_offer, if_pos hseen, hp, List.append_nil]
          exact hrows
        stats_eq := by
          show r.stats = plan.tally left seen ((plan.leftKeys left).take (i + 1)) delivered.length
          rw [hstats]
          unfold Plan.tally
          rw [hnext, Plan.made_offer, if_pos hseen] }
  · exact
      { h with
        exhausted := fun _ => hright
        rows_eq := by
          show _ = plan.outputs (plan.made left seen ((plan.leftKeys left).take (i + 1)))
          rw [hnext, Plan.made_offer, if_neg hseen, Plan.outputs_append, hrows]
        stats_eq := by
          show _ = plan.tally left seen ((plan.leftKeys left).take (i + 1)) delivered.length
          rw [hnext, Plan.tally_offer _ hseen, hstats] }

theorem close (h : Inv plan observer left seen delivered r) {i : Nat}
    (hphase : r.phase = .leftOnly i) (hi : r.matched.length ≤ i) :
    r.offered (plan.leftKeys left) = plan.leftKeys left ∧
      Inv plan observer left seen delivered { r with phase := .done } := by
  have hoff : r.offered (plan.leftKeys left) = plan.leftKeys left := by
    unfold offered
    rw [hphase]
    exact List.take_of_length_le (h.size_eq ▸ hi)
  have hright : r.right = .finish [] := h.exhausted (by rw [hphase]; simp)
  refine ⟨hoff, { h with exhausted := fun _ => hright, rows_eq := ?_, stats_eq := ?_ }⟩
  · rw [h.rows_eq, hoff]
    rfl
  · rw [h.stats_eq, hoff]
    rfl

theorem of_row {v : Value} {next : Run} (h : Inv plan observer left seen delivered r)
    (hr : Rule r (.row v next)) :
    Inv plan observer left seen (delivered ++ [v]) next ∧ next.right = r.right ∧
      next.phase = r.phase := by
  cases hr with
  | deliver hp => exact ⟨h.deliver hp, rfl, rfl⟩

/-- A silent turn takes up some of the right rows that are left. -/
theorem of_silent {es : List Emission} {next : Run} (h : Inv plan observer left seen delivered r)
    (hr : Rule r (.silent es next)) :
    ∃ more, Inv plan observer left (seen ++ more) delivered next ∧
      r.remaining = more ++ next.remaining := by
  cases hr with
  | @probe es row right hp hphase hright =>
    refine ⟨[row], (h.withRight hphase right).probe hp hphase row, ?_⟩
    unfold remaining
    rw [hright, probe_right]
    rfl
  | @pass es items right hp hphase hright =>
    refine ⟨[], (List.append_nil seen).symm ▸ h.withRight hphase right, ?_⟩
    unfold remaining
    rw [hright]
    rfl
  | exhaust hp hphase hright =>
    refine ⟨[], (List.append_nil seen).symm ▸ h.exhaust hphase, ?_⟩
    unfold remaining
    rw [hright]
    rfl
  | offer hp hphase hi =>
    refine ⟨[], (List.append_nil seen).symm ▸ h.offer hp hphase hi, ?_⟩
    unfold remaining
    rw [h.exhausted (by rw [hphase]; simp), (h.offer hp hphase hi).exhausted (by simp)]
    rfl
  | close hp hphase hi =>
    exact ⟨[], (List.append_nil seen).symm ▸ (h.close hphase hi).2, rfl⟩

end Inv

/-! ## The output -/

theorem output_of_row {r next : Run} {v : Value} (h : r.turn = .row v next) :
    r.output = .yield [] (.record v) next.output := by
  rw [output]
  split <;> simp_all

theorem output_of_silent {r next : Run} {es : List Emission} (h : r.turn = .silent es next) :
    r.output = .delay es next.output := by
  rw [output]
  split <;> simp_all

theorem output_of_over {r : Run} (h : r.turn = .over) : r.output = .finish [] := by
  rw [output]
  split <;> simp_all

theorem turn_of_done {r : Run} (hp : r.pending = []) (hphase : r.phase = .done) :
    r.turn = .over := by
  unfold turn
  rw [hp, hphase]

namespace Inv

variable {plan : Plan} {observer : Option Observer} {left seen delivered : List Value} {r : Run}

/-- **The rest of the output.** The rows that a run has delivered and those that it will deliver are
all rows of the merge. -/
theorem output_items (h : Inv plan observer left seen delivered r) :
    ∃ rest : List Value, r.output.items = rest.map .record ∧
      delivered ++ rest = plan.rows left (seen ++ r.remaining) := by
  induction r using Run.output.induct generalizing seen delivered with
  | case1 r v next ht ih =>
    obtain ⟨hnext, hright, -⟩ := h.of_row (ht ▸ rule_turn h.gathered)
    obtain ⟨rest, hitems, hrows⟩ := ih hnext
    refine ⟨v :: rest, ?_, ?_⟩
    · rw [output_of_row ht, Feed.items, hitems]
      rfl
    · unfold remaining at hrows ⊢
      rw [← hright, ← hrows, List.append_assoc]
      rfl
  | case2 r es next ht ih =>
    obtain ⟨more, hnext, hrem⟩ := h.of_silent (ht ▸ rule_turn h.gathered)
    obtain ⟨rest, hitems, hrows⟩ := ih hnext
    refine ⟨rest, ?_, ?_⟩
    · rw [output_of_silent ht, Feed.items_delay, hitems]
    · rw [hrows, List.append_assoc, hrem]
  | case3 r ht =>
    have hr := ht ▸ rule_turn h.gathered
    cases hr with
    | halt hp hphase =>
      have hright : r.right = .finish [] := h.exhausted (by rw [hphase]; simp)
      have hoff : r.offered (plan.leftKeys left) = plan.leftKeys left := by
        unfold offered
        rw [hphase]
      refine ⟨[], by rw [output_of_over ht]; rfl, ?_⟩
      unfold remaining
      rw [hright, rowsOf_finish, List.append_nil, List.append_nil, h.delivered_eq hp hoff]

/-- A silent turn that does not end the run pulls the right side at most once. -/
theorem take_of_silent {es : List Emission} {next : Run}
    (h : Inv plan observer left seen delivered r) (hr : Rule r (.silent es next))
    (hnext : next.phase ≠ .done) (m : Nat) :
    ∃ k, es ++ (next.right.take m).1 = (r.right.take k).1 ∧
      (next.right.length < m → r.right.length < k) := by
  cases hr with
  | @probe es row right hp hphase hright =>
    rw [hright, probe_right]
    exact ⟨m + 1, rfl, Nat.succ_lt_succ⟩
  | @pass es items right hp hphase hright =>
    rw [hright]
    exact ⟨m + 1, rfl, Nat.succ_lt_succ⟩
  | @exhaust es hp hphase hright =>
    rw [hright, Feed.take_finish_nil, List.append_nil]
    exact ⟨1, rfl, fun _ => Nat.zero_lt_one⟩
  | offer hp hphase hi =>
    have hright := h.exhausted (by rw [hphase]; simp)
    have hright' := (h.offer hp hphase hi).exhausted (by simp)
    rw [hright, hright']
    exact ⟨m, rfl, id⟩
  | close hp hphase hi => exact absurd rfl hnext

/-- The silent turn that ends the run sets the closing report free. -/
theorem closing_of_silent {es : List Emission} {next : Run}
    (h : Inv plan observer left seen delivered r) (hr : Rule r (.silent es next))
    (hnext : next.phase = .done) :
    es = closing observer (plan.account left seen) ∧ r.right = .finish [] ∧
      next.output = .finish [] := by
  cases hr with
  | probe hp hphase hright =>
    rw [probe_phase, hphase] at hnext
    cases hnext
  | pass hp hphase hright =>
    rw [hphase] at hnext
    cases hnext
  | exhaust hp hphase hright => cases hnext
  | offer hp hphase hi => cases hnext
  | close hp hphase hi =>
    obtain ⟨hoff, -⟩ := h.close hphase hi
    have hstats : r.stats = plan.account left seen := by
      rw [h.stats_eq, hoff, h.delivered_eq hp hoff]
      rfl
    rw [h.observer_eq, hstats]
    exact ⟨rfl, h.exhausted (by rw [hphase]; simp), output_of_over (turn_of_done hp rfl)⟩

theorem phase_of_silent {es : List Emission} {next : Run} (hr : Rule r (.silent es next)) :
    r.phase ≠ .done := by
  cases hr <;> simp [*]

/-- What so many pulls set free: what pulls of the right side set free, and the closing report once
the output is found to be exhausted. -/
theorem take_output (h : Inv plan observer left seen delivered r) (n : Nat) :
    ∃ m, (r.output.take n).1 = (r.right.take m).1 ++
        (if r.phase ≠ .done ∧ r.output.length < n then
          closing observer (plan.account left (seen ++ r.remaining)) else []) ∧
      (r.output.length < n → r.right.length < m) := by
  induction r using Run.output.induct generalizing seen delivered n with
  | case1 r v next ht ih =>
    obtain ⟨hnext, hright, hphase⟩ := h.of_row (ht ▸ rule_turn h.gathered)
    rw [output_of_row ht]
    cases n with
    | zero => exact ⟨0, by simp, by simp⟩
    | succ n =>
      -- a row comes with nothing set free, so the right side is pulled by later turns only
      obtain ⟨m, htake, hm⟩ := ih hnext n
      rw [show next.remaining = r.remaining from congrArg rowsOf hright] at htake
      rw [hright] at htake hm
      rw [hphase] at htake
      refine ⟨m, ?_, fun hn => hm (by simpa [Feed.length] using hn)⟩
      simpa [Feed.take, Feed.length] using htake
  | case2 r es next ht ih =>
    cases n with
    | zero => exact ⟨0, by simp, by simp⟩
    | succ n =>
      have hr := ht ▸ rule_turn h.gathered
      have hphase := phase_of_silent hr
      rw [output_of_silent ht, Feed.length_delay, Feed.take_delay]
      by_cases hnext : next.phase = .done
      · obtain ⟨rfl, hright, hover⟩ := h.closing_of_silent hr hnext
        have hremaining : r.remaining = [] := congrArg rowsOf hright
        refine ⟨1, ?_, ?_⟩
        · rw [hover, hremaining, hright]
          simp [hphase, Feed.length]
        · rw [hright]
          exact fun _ => Nat.zero_lt_one
      · obtain ⟨more, hinv, hrem⟩ := h.of_silent hr
        obtain ⟨m, htake, hm⟩ := ih hinv (n + 1)
        obtain ⟨k, hk, hlength⟩ := h.take_of_silent hr hnext m
        refine ⟨k, ?_, fun hn => hlength (hm hn)⟩
        rw [htake, ← List.append_assoc, hk, hrem, ← List.append_assoc]
        simp only [ne_eq, hphase, hnext, not_false_eq_true, true_and]
  | case3 r ht =>
    have hr := ht ▸ rule_turn h.gathered
    cases hr with
    | halt hp hphase =>
      have hright := h.exhausted (by rw [hphase]; simp)
      refine ⟨1, ?_, ?_⟩
      · rw [output_of_over ht, hright, hphase]
        simp
      · rw [hright]
        exact fun _ => Nat.zero_lt_one

end Inv

/-- The invariant holds once the left rows are gathered. -/
theorem inv_gatherLeft (plan : Plan) (observer : Option Observer) (left right : Feed Node) :
    Inv plan observer (rowsOf left) [] [] (start plan observer left right).gatherLeft.2 where
  plan_eq := rfl
  observer_eq := rfl
  gathered := rfl
  store_eq := rfl
  processed_iff := fun _ k => Iff.rfl
  matched_eq := by
    show List.replicate
      (Buckets.ofList plan.selectors.left plan.distinct (rowsOf left)).size false = _
    rw [Buckets.size_ofList, ← List.map_const']
    exact List.map_congr_left fun k _ => rfl
  exhausted := fun hne => absurd rfl hne
  rows_eq := by simp [start, gatherLeft, offered, Plan.made, Plan.probed, Plan.outputs]
  stats_eq := by
    show ({ leftRows :=
      (Buckets.ofList plan.selectors.left plan.distinct (rowsOf left)).itemCount } : MergeStats) = _
    rw [Buckets.itemCount_ofList]
    simp [start, gatherLeft, offered, Plan.tally, Plan.made, Plan.probed, Plan.stored]

section First

variable {r : Run} (hp : r.pending = []) (hphase : r.phase = .probing)

theorem gatherLeft_left (r : Run) : r.gatherLeft.2.left = none := by
  unfold gatherLeft
  split
  · assumption
  · rfl

theorem gatherLeft_pending (r : Run) : r.gatherLeft.2.pending = r.pending := by
  unfold gatherLeft
  split <;> rfl

include hp hphase

/-- The first turn gathers the left rows, whatever it does besides. -/
theorem turn_of_gatherLeft {es : List Emission} {next : Run}
    (h : r.gatherLeft.2.turn = .silent es next) : r.turn = .silent (r.gatherLeft.1 ++ es) next := by
  unfold turn at h ⊢
  rw [gatherLeft_pending, hp, gatherLeft_phase, hphase,
    gatherLeft_of_gathered (gatherLeft_left r)] at h
  rw [hp, hphase]
  dsimp only at h ⊢
  cases hright : r.gatherLeft.2.right with
  | finish fs =>
    rw [hright] at h
    cases h
    rfl
  | yield fs node right =>
    rw [hright] at h
    cases node <;> cases h <;> rfl

theorem output_eq_delay : r.output = .delay r.gatherLeft.1 r.gatherLeft.2.output := by
  have hr := rule_turn (gatherLeft_left r)
  match ht : r.gatherLeft.2.turn with
  | .silent es next =>
    rw [output_of_silent ht, output_of_silent (turn_of_gatherLeft hp hphase ht), Feed.delay_delay]
  | .row v next =>
    rw [ht] at hr
    cases hr with
    | deliver hp' => exact absurd (hp'.symm.trans ((gatherLeft_pending r).trans hp)) (by simp)
  | .over =>
    rw [ht] at hr
    cases hr with
    | halt _ hphase' =>
      have hdone : Phase.done = .probing :=
        hphase'.symm.trans ((gatherLeft_phase r).trans hphase)
      cases hdone

end First

end Run

/-! ## A merge from its start -/

section Feeds

variable (plan : Plan) (observer : Option Observer) (left right : Feed Node)

/-- **The hash join is the nested-loop join**, over the rows that the plan keeps. -/
theorem items_feeds :
    (feeds plan observer left right).items =
      (plan.rows (rowsOf left) (rowsOf right)).map .record := by
  obtain ⟨rest, hitems, hrows⟩ := (Run.inv_gatherLeft plan observer left right).output_items
  unfold feeds
  rw [Run.output_eq_delay rfl rfl, Feed.items_delay, hitems]
  exact congrArg (List.map Node.record) hrows

/-- The first pull sets free what the left side holds, every pull what it pulls of the right side,
and the one that finds the end the closing report, after all else. -/
theorem take_feeds (n : Nat) :
    ∃ m, ((feeds plan observer left right).take (n + 1)).1 = left.released ++ (right.take m).1 ++
        (if (feeds plan observer left right).length < n + 1 then
          closing observer (plan.account (rowsOf left) (rowsOf right)) else []) ∧
      ((feeds plan observer left right).length < n + 1 → right.length < m) := by
  obtain ⟨m, htake, hm⟩ := (Run.inv_gatherLeft plan observer left right).take_output (n + 1)
  unfold feeds
  rw [Run.output_eq_delay rfl rfl, Feed.length_delay, Feed.take_delay, htake]
  refine ⟨m, ?_, hm⟩
  rw [List.append_assoc]
  simp only [ne_eq, reduceCtorEq, not_false_eq_true, true_and, Run.start, Run.gatherLeft]
  rfl

theorem released_feeds :
    (feeds plan observer left right).released = left.released ++ right.released ++
      closing observer (plan.account (rowsOf left) (rowsOf right)) := by
  obtain ⟨m, htake, hm⟩ :=
    take_feeds plan observer left right (feeds plan observer left right).length
  rw [← Feed.take_of_length_lt (Nat.lt_succ_self _), htake, if_pos (Nat.lt_succ_self _),
    Feed.take_of_length_lt (hm (Nat.lt_succ_self _))]

end Feeds

end RecordFlow.Merge
