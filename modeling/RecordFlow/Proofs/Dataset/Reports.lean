import RecordFlow.Proofs.Dataset.Reachable
import RecordFlow.Proofs.Merge.Pending

/-!
# Reports of merges

Calls on a dataset keep account of the merges that are pending in it (`Dataset.pendingAfter`): a
merge is put on top of those of its sides, and a call that pulls everything leaves none. What a run
reports and what is pending after it are what was pending before and what its merges add, so every
report comes once.
-/

namespace RecordFlow

/-! ## What calls do to pending merges -/

namespace Merge.Pending

/-- A call sets no report of a merge free and leaves merges pending. -/
structure Deferred (p : Pending) (released : List Emission) (after : Dataset) : Prop where
  governs : p.Governs after.data.toFeed
  silent : finishes released = []

/-- A call sets the reports of all pending merges free, amid its own, and leaves no merge
pending. -/
structure Drained (p : Pending) (released : List Emission) (after : Dataset) : Prop where
  released_eq : ∃ before own, released = before ++ p.released ++ own ∧
    finishes before = [] ∧ finishes own = []
  nothing_left : after.data.released = []

end Merge.Pending

/-- A stage is lazy on nested data. -/
theorem Data.reads_mapBase {s : Stage} {j k level : Nat} {data : Data} (hs : s.Chained j k)
    (h : 0 < level ∨ data.released = []) : (data.mapBase s level).toFeed.Reads data.toFeed := by
  match level, data with
  | 0, data =>
    have hnil : data.released = [] := h.resolve_left (Nat.lt_irrefl 0)
    exact Feed.reads_of_released_nil (Data.released_ofNode _) hnil
  | _ + 1, .item v => exact .refl _
  | 1, .nodes feed => exact hs.reads feed
  | level + 2, .nodes feed => exact Feed.reads_map _ feed

/-- Whether a call pulls all that a dataset of a level holds. -/
def Call.forces (level : Nat) : Call → Bool
  | .get => true
  | .inspect _ => true
  | .getWith _ => true
  | .ungroup _ => level = 1
  | .reduceWith _ ungroupAfter => ungroupAfter && level = 1
  | _ => false

/-- The merge that a call on a dataset calls for, unless it is refused. -/
def Call.job? (d : Dataset) : Call → Option Merge.Job
  | .merge incoming matcher options =>
    if d.level = 1 ∧ incoming.level = 1 then
      match Merge.Plan.make matcher options with
      | .ok plan => some ⟨plan, d.observer, d.data.toFeed, incoming.data.toFeed⟩
      | .error _ => none
    else none
  | _ => none

namespace Dataset

variable {d : Dataset} {c : Call} {p q : Merge.Pending}

/-- The merges that are pending after a call, if some were before it and others in the dataset that
it merges in. -/
def pendingAfter (d : Dataset) (p q : Merge.Pending) (c : Call) : Merge.Pending :=
  match c.job? d with
  | some job => .merge job p q
  | none => if c.forces d.level then .nothing else p

@[simp] theorem finishes_report (d : Dataset) (operation : Operation) (before : Nat) :
    finishes (d.report operation before) = [] := by
  unfold report Emission.announce
  cases d.observer <;> rfl

/-- A merge is refused, or it is put on top of what is pending. -/
theorem merge_cases (d incoming : Dataset) (matcher : Merge.Matcher) (options : Merge.Options) :
    (Call.job? d (.merge incoming matcher options) = none ∧
      (d.merge incoming matcher options).dataset = d ∧
      (d.merge incoming matcher options).released = []) ∨
    ∃ job : Merge.Job, Call.job? d (.merge incoming matcher options) = some job ∧
      job.observer = d.observer ∧ job.left = d.data.toFeed ∧ job.right = incoming.data.toFeed ∧
      (d.merge incoming matcher options).dataset = { d with data := .nodes job.output } ∧
      finishes (d.merge incoming matcher options).released = [] := by
  by_cases hdepth : d.level = 1 ∧ incoming.level = 1
  · cases hplan : Merge.Plan.make matcher options with
    | error e =>
      rw [merge_of_error hdepth.1 hdepth.2 hplan]
      refine .inl ⟨?_, rfl, rfl⟩
      dsimp only [Call.job?]
      rw [if_pos hdepth, hplan]
    | ok plan =>
      rw [merge_of_plan hdepth.1 hdepth.2 hplan]
      refine .inr ⟨⟨plan, d.observer, d.data.toFeed, incoming.data.toFeed⟩, ?_, rfl, rfl, rfl, rfl,
        finishes_report d .merge 1⟩
      dsimp only [Call.job?]
      rw [if_pos hdepth, hplan]
  · rw [merge_of_depth (not_and_or.1 hdepth)]
    exact .inl ⟨if_neg hdepth, rfl, rfl⟩

theorem pendingAfter_of_none (hjob : c.job? d = none) (hc : c.forces d.level = false) :
    d.pendingAfter p q c = p := by
  unfold pendingAfter
  rw [hjob, hc]
  rfl

theorem pendingAfter_of_job {job : Merge.Job} (hjob : c.job? d = some job) :
    d.pendingAfter p q c = .merge job p q := by
  unfold pendingAfter
  rw [hjob]

theorem job?_of_forces (hc : c.forces d.level = true) : c.job? d = none := by
  cases c with
  | merge incoming matcher options => cases hc
  | _ => rfl

theorem pendingAfter_of_forces (hc : c.forces d.level = true) :
    d.pendingAfter p q c = .nothing := by
  unfold pendingAfter
  rw [job?_of_forces hc]
  exact if_pos hc

/-! ### Calls that pull nothing -/

section Deferred

variable (hp : p.Governs d.data.toFeed)

include hp

theorem Nested.governs_mapBase (hd : d.Nested) {s : Stage} {k : Nat} (hs : s.Chained 0 k) :
    p.Governs (d.data.mapBase s d.level).toFeed := by
  refine hp.reads (Data.reads_mapBase hs ?_)
  -- at level zero there is a single item, which sets nothing free
  rcases Nat.eq_zero_or_pos d.level with hlevel | hpos
  · unfold Nested at hd
    rw [hlevel] at hd
    obtain ⟨v, hv⟩ := Node.nested_zero_iff.1 hd
    cases hdata : d.data with
    | item w => exact .inr rfl
    | nodes feed => rw [hdata] at hv; cases hv
  · exact .inl hpos

theorem deferred_chain (hd : d.Nested) (operation : Operation) {s : Stage} (hs : s.Chained 0 0) :
    p.Deferred (d.chain operation s).released (d.chain operation s).dataset where
  governs := hd.governs_mapBase hp hs
  silent := finishes_report _ _ _

theorem deferred_ungroup {f : Value → Value} (hlevel : d.level ≠ 1) :
    p.Deferred (d.ungroup f).released (d.ungroup f).dataset := by
  match h : d.level with
  | 0 =>
    rw [ungroup_of_zero h]
    exact ⟨hp, rfl⟩
  | 1 => exact absurd h hlevel
  | level + 2 =>
    rw [ungroup_of_succ h]
    exact ⟨hp.reads (Data.reads_mapBase (.flatten f) (.inl level.succ_pos)), finishes_report _ _ _⟩

theorem deferred_reduceWith (hd : d.Nested) {r : Reducer} {ungroupAfter : Bool}
    (h : (ungroupAfter && d.level = 1) = false) :
    p.Deferred (d.reduceWith r ungroupAfter).released (d.reduceWith r ungroupAfter).dataset := by
  have hkeep : p.Deferred (d.reduceKeep r).released (d.reduceKeep r).dataset :=
    deferred_chain hp hd .reduce (.reduce r)
  rw [reduceWith_eq]
  split_ifs with hungroup
  · obtain ⟨rfl, hpos⟩ := Bool.and_eq_true_iff.1 hungroup
    have hlevel : d.level ≠ 1 := of_decide_eq_false h
    have hflatten : p.Deferred (d.reduceKeep r).dataset.flatten.released _ :=
      deferred_ungroup hkeep.governs hlevel
    refine ⟨hflatten.governs, ?_⟩
    show finishes ((d.reduceKeep r).released ++ _) = []
    rw [finishes_append, hkeep.silent, hflatten.silent]
    rfl
  · exact hkeep

theorem deferred_merge (incoming : Dataset) (matcher : Merge.Matcher) (options : Merge.Options)
    (hq : q.Governs incoming.data.toFeed) :
    (d.pendingAfter p q (.merge incoming matcher options)).Deferred
      (d.merge incoming matcher options).released (d.merge incoming matcher options).dataset := by
  rcases merge_cases d incoming matcher options with
    ⟨hjob, hdataset, hreleased⟩ | ⟨job, hjob, -, hleft, hright, hdataset, hreleased⟩
  · rw [pendingAfter_of_none hjob rfl, hdataset, hreleased]
    exact ⟨hp, rfl⟩
  · rw [pendingAfter_of_job hjob, hdataset]
    refine ⟨.merge ?_ ?_, hreleased⟩
    · rw [hleft]
      exact hp
    · rw [hright]
      exact hq

/-- A call that does not force anything defers all reports, also if it is refused. -/
theorem deferred_answer (hd : d.Nested)
    (hq : ∀ incoming, c.incoming? = some incoming → q.Governs incoming.data.toFeed)
    (hc : c.forces d.level = false) :
    (d.pendingAfter p q c).Deferred (d.answer c).released (d.answer c).dataset := by
  cases c with
  | merge incoming matcher options => exact deferred_merge hp incoming matcher options (hq _ rfl)
  | ungroup f =>
    rw [pendingAfter_of_none rfl hc]
    exact deferred_ungroup hp (of_decide_eq_false hc)
  | reduceWith r ungroupAfter =>
    rw [pendingAfter_of_none rfl hc]
    exact deferred_reduceWith hp hd hc
  | group keyOf => exact ⟨hd.governs_mapBase hp (.group keyOf), finishes_report _ _ _⟩
  | sort sorting =>
    have hsort := deferred_chain hp hd .sort (.sort sorting)
    exact ⟨hsort.governs, hsort.silent⟩
  | map f => exact deferred_chain hp hd .map (.map f)
  | filter p => exact deferred_chain hp hd .filter (.filter p)
  | distinct keyOf => exact deferred_chain hp hd .distinct (.distinct keyOf)
  | reduceKeep r => exact deferred_chain hp hd .reduce (.reduce r)
  | observe observer => exact ⟨hp, rfl⟩
  | get => cases hc
  | inspect see => cases hc
  | getWith f => cases hc

/-- The output of a merge that was called for is the data, and pulls of it show how far it is. -/
theorem data_of_job {job : Merge.Job}
    (hq : ∀ incoming, c.incoming? = some incoming → q.Governs incoming.data.toFeed)
    (hjob : c.job? d = some job) :
    job.observer = d.observer ∧ (d.answer c).dataset.data = .nodes job.output ∧
      ∀ n, (Merge.Pending.merge job p q).Shows n (job.output.pulls n).1 := by
  cases c with
  | merge incoming matcher options =>
    rcases merge_cases d incoming matcher options with
      ⟨hnone, -⟩ | ⟨job', hjob', hobserver, hleft, hright, hdataset, -⟩
    · rw [hnone] at hjob
      cases hjob
    · rw [hjob'] at hjob
      cases hjob
      have hleft : p.Governs job.left := hleft ▸ hp
      have hright : q.Governs job.right := hright ▸ hq incoming rfl
      refine ⟨hobserver, congrArg Dataset.data hdataset, fun n => ?_⟩
      rw [Feed.pulls_fst]
      exact hleft.shows_output hright n
  | _ => cases hjob

end Deferred

/-! ### Calls that pull everything -/

section Drained

variable (hd : d.Nested) (hp : p.Governs d.data.toFeed)

include hd hp

theorem released_get :
    d.get.released = p.released ++ Emission.announce d.observer (.materialized d.level) := by
  obtain ⟨v, -, hget⟩ := hd.get_eq
  rw [hget]
  exact congrArg (· ++ _) hp.released_eq

theorem released_look {α : Type} {way : Dataset → Outcome α} (hway : Looks way) :
    (way d).released = p.released ++ Emission.announce d.observer (.materialized d.level) := by
  obtain ⟨a, heq⟩ := hd.look_eq hway
  rw [heq]
  exact released_get hd hp

theorem drained_get : p.Drained d.get.released d.get.dataset := by
  refine ⟨⟨[], _, released_get hd hp, rfl, finishes_materialized d.observer d.level⟩, ?_⟩
  obtain ⟨v, -, hget⟩ := hd.get_eq
  rw [hget]
  exact Data.released_ofNode _

theorem drained_look {α : Type} {way : Dataset → Outcome α} (hway : Looks way) :
    p.Drained (way d).released (way d).dataset := by
  obtain ⟨a, heq⟩ := hd.look_eq hway
  rw [heq]
  exact drained_get hd hp

theorem drained_ungroup {f : Value → Value} (hlevel : d.level = 1) :
    p.Drained (d.ungroup f).released (d.ungroup f).dataset := by
  rw [ungroup_of_one hlevel]
  rcases hd.collapse_cases hlevel with ⟨v, hitems⟩ | hcount
  · rw [collapse_of_single hitems]
    let after : Dataset := { d with data := .item v, level := 0 }
    refine ⟨⟨[], after.report .ungroup 1, ?_, rfl, finishes_report _ _ _⟩, rfl⟩
    exact congrArg (· ++ after.report .ungroup 1) hp.released_eq
  · rw [hd.collapse_of_length_ne hlevel hcount]
    refine ⟨⟨[], [], ?_, rfl, rfl⟩, Feed.released_ofList _⟩
    exact hp.released_eq.trans (List.append_nil _).symm

theorem drained_reduceWith {r : Reducer} {ungroupAfter : Bool}
    (h : (ungroupAfter && d.level = 1) = true) :
    p.Drained (d.reduceWith r ungroupAfter).released (d.reduceWith r ungroupAfter).dataset := by
  obtain ⟨rfl, hlevel⟩ := Bool.and_eq_true_iff.1 h
  have hlevel : d.level = 1 := of_decide_eq_true hlevel
  have hkeep : p.Deferred (d.reduceKeep r).released (d.reduceKeep r).dataset :=
    deferred_chain hp hd .reduce (.reduce r)
  have hnested : (d.reduceKeep r).dataset.Nested := hd.chain .reduce (.reduce r)
  have hflatten : p.Drained (d.reduceKeep r).dataset.flatten.released _ :=
    drained_ungroup hnested hkeep.governs hlevel
  -- folding is lazy: it is the collapse of its result that pulls everything
  obtain ⟨before, own, hreleased, hbefore, hown⟩ := hflatten.released_eq
  rw [reduceWith_eq, if_pos (by simp [hlevel])]
  refine ⟨⟨(d.reduceKeep r).released ++ before, own, ?_, ?_, hown⟩, hflatten.nothing_left⟩
  · show (d.reduceKeep r).released ++ (d.reduceKeep r).dataset.flatten.released = _
    rw [hreleased]
    simp only [List.append_assoc]
  · rw [finishes_append, hkeep.silent, hbefore]
    rfl

/-- A call that forces sets all reports free, also if it fails. -/
theorem drained_answer (hc : c.forces d.level = true) :
    p.Drained (d.answer c).released (d.answer c).dataset := by
  cases c with
  | get => exact drained_look hd hp .get
  | inspect see => exact drained_look hd hp (.inspect see)
  | getWith f => exact drained_look hd hp (.getWith f)
  | ungroup f => exact drained_ungroup hd hp (of_decide_eq_true hc)
  | reduceWith r ungroupAfter => exact drained_reduceWith hd hp hc
  | _ => cases hc

end Drained

/-! ## Whole runs -/

/-- The reports that a call adds to those to come: those pending in the dataset that it merges in,
and one for the merge itself if somebody is told. -/
def adds (d : Dataset) (q : Merge.Pending) (c : Call) : List (Observer × MergeStats) :=
  match c.job? d with
  | some job => finishes q.released ++ job.observer.toList.map fun o => (o, job.stats)
  | none => []

theorem governs_answer (hd : d.Nested) (hp : p.Governs d.data.toFeed)
    (hq : ∀ incoming, c.incoming? = some incoming → q.Governs incoming.data.toFeed) :
    (d.pendingAfter p q c).Governs (d.answer c).dataset.data.toFeed := by
  cases hc : c.forces d.level with
  | false => exact (deferred_answer hp hd hq hc).governs
  | true =>
    rw [pendingAfter_of_forces hc]
    exact Merge.Pending.governs_of_released_nil (drained_answer hd hp hc).nothing_left

/-- **Conservation of reports.** What a call reports and what is pending after it are what was
pending before and what the call adds. -/
theorem finishes_answer (hd : d.Nested) (hp : p.Governs d.data.toFeed)
    (hq : ∀ incoming, c.incoming? = some incoming → q.Governs incoming.data.toFeed) :
    finishes (d.answer c).released ++ finishes (d.pendingAfter p q c).released =
      finishes p.released ++ d.adds q c := by
  cases hc : c.forces d.level with
  | false =>
    rw [(deferred_answer hp hd hq hc).silent]
    unfold adds
    cases hjob : c.job? d with
    | none =>
      rw [pendingAfter_of_none hjob hc]
      simp
    | some job =>
      rw [pendingAfter_of_job hjob]
      simp [Merge.Pending.released, Merge.Job.report, Merge.finishes_closing]
  | true =>
    obtain ⟨before, own, hreleased, hbefore, hown⟩ := (drained_answer hd hp hc).released_eq
    have hjob : c.job? d = none := job?_of_forces hc
    unfold adds
    rw [hreleased, pendingAfter_of_forces hc, hjob]
    simp [hbefore, hown, Merge.Pending.released]

/-- The datasets that calls leave behind from any source on, with the merges pending in them. -/
inductive Awaits : Dataset → Merge.Pending → Prop where
  | source (s : Source) (observer : Option Observer) {d : Dataset}
    (h : (s.datasetWith observer).2 = .ok d) : Awaits d .nothing
  | answer {d : Dataset} {p q : Merge.Pending} {c : Call} (h : Awaits d p)
    (hc : ∀ incoming, c.incoming? = some incoming → Awaits incoming q) :
    Awaits (d.answer c).dataset (d.pendingAfter p q c)

theorem Awaits.nested (h : Awaits d p) : d.Nested := by
  induction h with
  | source s observer h => exact nested_source h
  | answer _ _ ih => exact ih.answer _

theorem Awaits.governs (h : Awaits d p) : p.Governs d.data.toFeed := by
  induction h with
  | source s observer h =>
    obtain ⟨node, -, hdata⟩ := source_data h
    rw [hdata]
    exact Merge.Pending.governs_of_released_nil (Data.released_ofNode node)
  | answer h _ ih ihc => exact governs_answer h.nested ih ihc

/-- Whatever dataset calls leave behind, some merges are pending in it, or none. -/
theorem Reachable.awaits (h : Reachable d) : ∃ p, Awaits d p := by
  induction h with
  | source s observer h => exact ⟨.nothing, .source s observer h⟩
  | @answer d c _ _ ih ihc =>
    obtain ⟨p, hp⟩ := ih
    cases hmerged : c.incoming? with
    | none => exact ⟨_, hp.answer (q := .nothing) fun i hi => by rw [hmerged] at hi; cases hi⟩
    | some incoming =>
      obtain ⟨q, hq⟩ := ihc incoming hmerged
      exact ⟨_, hp.answer fun i hi => by rw [hmerged] at hi; cases hi; exact hq⟩

section Runs

variable {calls : List (Call × Merge.Pending)}

/-- What calls in a row set free. -/
def releases (d : Dataset) : List Call → List Emission
  | [] => []
  | c :: calls => (d.answer c).released ++ (d.answer c).dataset.releases calls

/-- The merges that are pending after calls in a row, each with those pending in the dataset that it
merges in. -/
def pendingAfterAll (d : Dataset) (p : Merge.Pending) : List (Call × Merge.Pending) → Merge.Pending
  | [] => p
  | (c, q) :: calls => (d.answer c).dataset.pendingAfterAll (d.pendingAfter p q c) calls

/-- The reports that calls in a row add to those to come. -/
def addsAll (d : Dataset) : List (Call × Merge.Pending) → List (Observer × MergeStats)
  | [] => []
  | (c, q) :: calls => d.adds q c ++ (d.answer c).dataset.addsAll calls

theorem finishes_releases (h : Awaits d p)
    (hcalls : ∀ c ∈ calls, ∀ incoming, c.1.incoming? = some incoming → Awaits incoming c.2) :
    finishes (d.releases (calls.map Prod.fst)) ++ finishes (d.pendingAfterAll p calls).released =
      finishes p.released ++ d.addsAll calls := by
  induction calls generalizing d p with
  | nil => simp [releases, pendingAfterAll, addsAll]
  | cons c calls ih =>
    obtain ⟨c, q⟩ := c
    have hc : ∀ incoming, c.incoming? = some incoming → Awaits incoming q :=
      hcalls (c, q) List.mem_cons_self
    have hstep := finishes_answer h.nested h.governs fun i hi => (hc i hi).governs
    have hrest := ih (h.answer hc) fun c' hc' => hcalls c' (List.mem_cons_of_mem _ hc')
    calc
      _ = finishes (d.answer c).released ++
          (finishes ((d.answer c).dataset.releases (calls.map Prod.fst)) ++
            finishes
              ((d.answer c).dataset.pendingAfterAll (d.pendingAfter p q c) calls).released) := by
        simp [releases, pendingAfterAll]
      _ = finishes (d.answer c).released ++ (finishes (d.pendingAfter p q c).released ++
            (d.answer c).dataset.addsAll calls) := by rw [hrest]
      _ = finishes p.released ++ d.addsAll ((c, q) :: calls) := by
        rw [← List.append_assoc, hstep, List.append_assoc]
        rfl

end Runs

/-- **A merge reports once**, to the observer of its target, when its output is found to be
exhausted: never before all its rows were delivered, and after the merges that feed its left and
then its right side. A call that forces the data sets all reports to come free before its own, also
if it fails, and other calls set none free. -/
theorem merges_report_once (h : Awaits d p) :
    (∃ pulled : Nat → Nat, pulled 0 = 0 ∧ Monotone pulled ∧
        ∀ n, p.Shows (pulled n) (d.data.toFeed.pulls n).1 ∧
          (d.data.toFeed.length < n → (d.data.toFeed.pulls n).1 = p.released)) ∧
      (∀ c q, (∀ incoming, c.incoming? = some incoming → Awaits incoming q) →
        (if c.forces d.level then p.Drained (d.answer c).released (d.answer c).dataset
          else (d.pendingAfter p q c).Deferred (d.answer c).released (d.answer c).dataset) ∧
        ∀ job, c.job? d = some job →
          job.observer = d.observer ∧ (d.answer c).dataset.data = .nodes job.output ∧
            ∀ n, (Merge.Pending.merge job p q).Shows n (job.output.pulls n).1) ∧
      d.get.released = p.released ++ Emission.announce d.observer (.materialized d.level) ∧
      (∀ (α : Type) (see : Value → α), (d.inspect see).released =
        p.released ++ Emission.announce d.observer (.materialized d.level)) ∧
      (∀ f, (d.getWith f).released =
        p.released ++ Emission.announce d.observer (.materialized d.level)) ∧
      d.intoValue.1 = p.released ++ Emission.announce d.observer (.materialized d.level) ∧
      ∀ calls : List (Call × Merge.Pending),
        (∀ c ∈ calls, ∀ incoming, c.1.incoming? = some incoming → Awaits incoming c.2) →
        finishes (d.releases (calls.map Prod.fst)) ++
            finishes (d.pendingAfterAll p calls).released =
          finishes p.released ++ d.addsAll calls := by
  have hd := h.nested
  have hp := h.governs
  refine ⟨?_, fun c q hc => ⟨?_, fun job hjob => ?_⟩, released_look hd hp .get,
    fun α see => released_look hd hp (.inspect see), fun f => released_look hd hp (.getWith f), ?_,
    fun calls hcalls => finishes_releases h hcalls⟩
  · simp only [Feed.pulls_fst]
    exact hp
  · split_ifs with hforces
    · exact drained_answer hd hp hforces
    · exact deferred_answer hp hd (fun i hi => (hc i hi).governs) (by simpa using hforces)
  · exact data_of_job hp (fun i hi => (hc i hi).governs) hjob
  · obtain ⟨v, -, hvalue⟩ := hd.intoValue_eq
    rw [hvalue]
    exact congrArg (· ++ _) hp.released_eq

/-- A merge whose right side is a merge: one `get` makes both report, the inner one first, and the
next `get` makes none. -/
theorem merges_report_once_of_merged_merge :
    let observed := fun label => { ofRecords [.null] with observer := some (.named label) }
    let inner :=
      ((observed "inner").answer (.merge (ofRecords [.null]) (.records .inner) {})).dataset
    let d := ((observed "outer").answer (.merge inner (.records .inner) {})).dataset
    (∃ p, Awaits d p) ∧
      (finishes d.get.released).map Prod.fst = [.named "inner", .named "outer"] ∧
      finishes d.get.dataset.get.released = [] := by
  intro observed inner d
  have hplain : Awaits (ofRecords [.null]) .nothing := .source (.records [.null]) none rfl
  have hobserved : ∀ label, Awaits (observed label) .nothing := fun label =>
    .source (.records [.null]) (some (.named label)) rfl
  have hinner : Awaits inner _ :=
    (hobserved "inner").answer (q := .nothing) fun i hi => by cases hi; exact hplain
  have hd : Awaits d _ := (hobserved "outer").answer fun i hi => by cases hi; exact hinner
  have hdone : Awaits d.get.dataset .nothing := hd.answer (c := .get) (q := .nothing) nofun
  refine ⟨⟨_, hd⟩, ?_, ?_⟩
  · rw [(merges_report_once hd).2.2.1]
    rfl
  · rw [(merges_report_once hdone).2.2.1, finishes_append, finishes_materialized]
    rfl

end Dataset

end RecordFlow
