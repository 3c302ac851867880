import RecordFlow.Proofs.Dataset.Alike
import RecordFlow.Proofs.Dataset.Reports
import RecordFlow.Proofs.Traversal

/-!
# Looking at the data on the way

A pipeline starts from a source and goes on with calls, also with merges of other pipelines. On the
way one may look at the data (`Dataset.Looks`), which pulls all that is pending. The reports of
merges come sooner then, but nothing else changes: what the other steps return, the levels, the
final value and the counters of every merge (`Pipeline.looks_change_nothing`).
-/

namespace RecordFlow

/-- The merge of a call, unless it is refused: who is told of it, and its counters. -/
def Call.merged (d : Dataset) (c : Call) : List (Option Observer × MergeStats) :=
  (c.job? d).toList.map fun job => (job.observer, job.stats)

/-- The dataset that is lost in a merge that is refused. -/
def Call.lost (d : Dataset) (c : Call) : List Dataset :=
  match c.job? d with
  | some _ => []
  | none => c.incoming?.toList

/-! ## Pipelines -/

/-- What a step of a pipeline returned, and the level it left. -/
structure Step where
  result : Except Error (Option Value)
  level : Nat

/-- What became of a pipeline. -/
structure Trace where
  dataset : Dataset
  /-- All that was set free, in order. -/
  released : List Emission
  /-- The steps, other than looks. -/
  steps : List Step
  /-- The merges, in the order in which they were called for. -/
  merges : List (Option Observer × MergeStats) := []
  /-- The datasets that were lost in merges that were refused. -/
  lost : List Dataset := []

namespace Trace

/-- The start from a source. -/
def start (released : List Emission) (d : Dataset) : Trace where
  dataset := d
  released := released
  steps := [⟨.ok none, d.level⟩]

/-- The step of a call. -/
def answer (t : Trace) (c : Call) : Trace :=
  let o := t.dataset.answer c
  { dataset := o.dataset
    released := t.released ++ o.released
    steps := t.steps ++ [⟨o.result, o.dataset.level⟩]
    merges := t.merges ++ c.merged t.dataset
    lost := t.lost ++ c.lost t.dataset }

/-- Another pipeline is made meanwhile. -/
def during (t other : Trace) : Trace where
  dataset := t.dataset
  released := t.released ++ other.released
  steps := t.steps ++ other.steps
  merges := t.merges ++ other.merges
  lost := t.lost ++ other.lost

/-- A look is no step. -/
def look {α : Type} (t : Trace) (way : Dataset → Outcome α) : Trace :=
  let o := way t.dataset
  { t with dataset := o.dataset, released := t.released ++ o.released }

end Trace

/-- A source, calls on the dataset that starts from it, merges of other pipelines, and looks. -/
inductive Pipeline where
  | source (s : Source) (observer : Option Observer)
  | call (before : Pipeline) (c : Call) (h : c.incoming? = none)
  | merge (before incoming : Pipeline) (matcher : Merge.Matcher) (options : Merge.Options)
  | look {α : Type} (before : Pipeline) (way : Dataset → Outcome α) (h : Dataset.Looks way)

namespace Pipeline

/-- The pipeline without its looks. -/
def bare : Pipeline → Pipeline
  | source s observer => source s observer
  | call before c h => call before.bare c h
  | merge before incoming matcher options => merge before.bare incoming.bare matcher options
  | look before _ _ => before.bare

/-- What becomes of a pipeline, unless a source gives no dataset. -/
def run : Pipeline → Except Error Trace
  | source s observer => do return .start (s.datasetWith observer).1 (← (s.datasetWith observer).2)
  | call before c _ => do return (← before.run).answer c
  | merge before incoming matcher options => do
    let t ← before.run
    let other ← incoming.run
    return (t.during other).answer (.merge other.dataset matcher options)
  | look before way _ => do return (← before.run).look way

end Pipeline

namespace Dataset

variable {d : Dataset}

/-! ## Looks -/

theorem Nested.alike_get (h : d.Nested) : d.Alike d.get.dataset := by
  obtain ⟨v, -, hget⟩ := h.get_eq
  rw [hget]
  exact ⟨rfl, rfl, Data.toNode_ofNode _⟩

/-- Applying a function while the value is written is mapping the records first. -/
theorem Nested.result_getWith (h : d.Nested) (f : Value → Value) :
    (d.getWith f).result = ((d.map f).andThen fun _ d => d.get).result := by
  obtain ⟨v, hv, hgetWith⟩ := h.getWith_eq f
  have hmap : (d.map f).dataset.Nested := h.chain .map (.map f)
  calc
    _ = .ok v := by rw [hgetWith]
    _ = d.data.toNode.toValueWith f d.level := hv.symm
    _ = (d.data.toNode.mapBase (.map f) d.level).toValue d.level :=
      (Node.toValue_mapBase_map f d.level d.data.toNode).symm
    _ = (d.map f).dataset.data.toNode.toValue d.level := by
      rw [← Data.toNode_mapBase (.map f)]
      rfl
    _ = (d.map f).dataset.get.result := hmap.result_get.symm

/-! ## Reports to come -/

/-- The reports of merges that come once the data are pulled to their end. -/
def due (d : Dataset) : List (Observer × MergeStats) := finishes d.data.released

theorem Nested.due_get (h : d.Nested) :
    d.get.dataset.due = [] ∧ finishes d.get.released = d.due := by
  obtain ⟨v, -, hget⟩ := h.get_eq
  rw [hget]
  unfold due
  rw [Data.released_ofNode, finishes_append, finishes_materialized, List.append_nil]
  exact ⟨rfl, rfl⟩

theorem Nested.finishes_intoValue (h : d.Nested) : finishes d.intoValue.1 = d.due := by
  obtain ⟨v, -, hvalue⟩ := h.intoValue_eq
  rw [hvalue, finishes_append, finishes_materialized, List.append_nil]
  rfl

end Dataset

/-- Whom a merge reports to, and what. -/
def told (m : Option Observer × MergeStats) : List (Observer × MergeStats) :=
  m.1.toList.map fun o => (o, m.2)

namespace Call

variable {d : Dataset} {c : Call}

theorem job?_of_incoming?_none (h : c.incoming? = none) : c.job? d = none := by
  cases c with
  | merge incoming matcher options => cases h
  | _ => rfl

theorem merged_of_incoming?_none (h : c.incoming? = none) : c.merged d = [] := by
  unfold merged
  rw [job?_of_incoming?_none h]
  rfl

end Call

namespace Dataset

variable {d d' incoming incoming' : Dataset} {c : Call}

/-- What a call reports, what is to come after it and what is lost are what was to come before it,
from both sides if it is a merge, and the merge that it adds. -/
theorem Reachable.finishes_answer (hd : Reachable d)
    (hc : ∀ incoming, c.incoming? = some incoming → Reachable incoming) :
    finishes (d.answer c).released ++ (d.answer c).dataset.due ++ (c.lost d).flatMap due =
      d.due ++ c.incoming?.toList.flatMap due ++ (c.merged d).flatMap told := by
  obtain ⟨p, hp⟩ := hd.awaits
  obtain ⟨q, hq⟩ : ∃ q, ∀ incoming, c.incoming? = some incoming → Awaits incoming q := by
    cases hmerged : c.incoming? with
    | none => exact ⟨.nothing, nofun⟩
    | some incoming =>
      obtain ⟨q, hq⟩ := (hc incoming hmerged).awaits
      exact ⟨q, fun i hi => by cases hi; exact hq⟩
  have hgoverns : ∀ incoming, c.incoming? = some incoming → q.Governs incoming.data.toFeed :=
    fun i hi => (hq i hi).governs
  have hstep := Dataset.finishes_answer hd.nested hp.governs hgoverns
  have hbefore : d.due = finishes p.released := congrArg finishes hp.governs.released_eq
  have hafter : (d.answer c).dataset.due = finishes (d.pendingAfter p q c).released :=
    congrArg finishes (governs_answer hd.nested hp.governs hgoverns).released_eq
  rw [hafter, hstep, hbefore]
  unfold adds Call.lost Call.merged
  cases hjob : c.job? d with
  | none => simp
  | some job =>
    cases hmerged : c.incoming? with
    | none => rw [Call.job?_of_incoming?_none hmerged] at hjob; cases hjob
    | some incoming =>
      have hincoming : incoming.due = finishes q.released :=
        congrArg finishes (hgoverns incoming hmerged).released_eq
      simp [hincoming, told]

theorem Alike.merged_eq (h : d.Alike d') (hi : incoming.Alike incoming') (matcher : Merge.Matcher)
    (options : Merge.Options) :
    Call.merged d' (.merge incoming' matcher options) =
      Call.merged d (.merge incoming matcher options) := by
  unfold Call.merged
  dsimp only [Call.job?]
  rw [h.level, hi.level]
  split_ifs
  · cases Merge.Plan.make matcher options with
    | error e => rfl
    | ok plan =>
      dsimp only [Merge.Job.stats, Merge.rowsOf, Option.toList, List.map]
      rw [h.observer, h.items_eq, hi.items_eq]
  · rfl

end Dataset

/-! ## Steps -/

namespace Trace

variable {t t₀ other other₀ : Trace} {c c₀ : Call}

/-- Two traces show the same, but for what was set free so far. -/
structure Agrees (t t₀ : Trace) : Prop where
  dataset : t₀.dataset.Alike t.dataset
  steps : t.steps = t₀.steps
  merges : t.merges = t₀.merges

namespace Agrees

theorem answer (h : t.Agrees t₀) (ho : (t₀.dataset.answer c₀).Alike (t.dataset.answer c))
    (hmerged : c.merged t.dataset = c₀.merged t₀.dataset) : (t.answer c).Agrees (t₀.answer c₀) where
  dataset := ho.dataset
  steps := by
    unfold Trace.answer
    dsimp only
    rw [h.steps, ho.result, ho.dataset.level]
  merges := by
    unfold Trace.answer
    dsimp only
    rw [h.merges, hmerged]

theorem during (h : t.Agrees t₀) (hother : other.Agrees other₀) :
    (t.during other).Agrees (t₀.during other₀) where
  dataset := h.dataset
  steps := congrArg₂ _ h.steps hother.steps
  merges := congrArg₂ _ h.merges hother.merges

theorem look (h : t.Agrees t₀) (hd : t.dataset.Nested) {α : Type} {way : Dataset → Outcome α}
    (hway : Dataset.Looks way) : (t.look way).Agrees t₀ where
  dataset := by
    obtain ⟨a, heq⟩ := hd.look_eq hway
    show t₀.dataset.Alike (way t.dataset).dataset
    rw [heq]
    exact h.dataset.trans hd.alike_get
  steps := h.steps
  merges := h.merges

end Agrees

/-- Two runs end in the same error, or in traces that agree. -/
inductive Agree : Except Error Trace → Except Error Trace → Prop where
  | error (e : Error) : Agree (.error e) (.error e)
  | ok {t t₀ : Trace} (h : t.Agrees t₀) : Agree (.ok t) (.ok t₀)

namespace Agree

variable {r r₀ : Except Error Trace} {next next₀ : Trace → Except Error Trace}

theorem refl (r : Except Error Trace) : Agree r r := by
  cases r with
  | error e => exact .error e
  | ok t => exact .ok ⟨.refl t.dataset, rfl, rfl⟩

theorem bind (h : Agree r r₀)
    (hnext : ∀ t t₀, r = .ok t → t.Agrees t₀ → Agree (next t) (next₀ t₀)) :
    Agree (r >>= next) (r₀ >>= next₀) := by
  cases h with
  | error e => exact .error e
  | ok h => exact hnext _ _ rfl h

theorem error_iff (h : Agree r r₀) {e : Error} : r = .error e ↔ r₀ = .error e := by
  cases h with
  | error e' => exact Iff.rfl
  | ok h => exact ⟨nofun, nofun⟩

theorem agrees (h : Agree r r₀) (ht : r = .ok t) (ht₀ : r₀ = .ok t₀) : t.Agrees t₀ := by
  cases h with
  | error e => cases ht
  | ok h =>
    cases ht
    cases ht₀
    exact h

end Agree

/-- The reports that were made, and those to come from the dataset and from those that were lost. -/
def account (t : Trace) : List (Observer × MergeStats) :=
  finishes t.released ++ t.dataset.due ++ t.lost.flatMap Dataset.due

/-- Every merge is accounted for. -/
def Balanced (t : Trace) : Prop := t.account.Perm (t.merges.flatMap told)

namespace Balanced

/-- A call keeps the balance if what is to come from the dataset that it merges in is counted. -/
theorem answer_of_perm (ht : t.dataset.Reachable)
    (hc : ∀ incoming, c.incoming? = some incoming → incoming.Reachable)
    (h : (t.account ++ c.incoming?.toList.flatMap Dataset.due).Perm (t.merges.flatMap told)) :
    (t.answer c).Balanced := by
  -- reports move between what was set free, what is to come and what is lost, so count each of them
  classical
  unfold Balanced
  rw [List.perm_iff_count] at h ⊢
  intro report
  have hbefore := h report
  have hstep := congrArg (List.count report) (ht.finishes_answer hc)
  unfold account at hbefore ⊢
  unfold Trace.answer
  simp only [finishes_append, List.flatMap_append, List.count_append] at hbefore hstep ⊢
  omega

theorem answer (h : t.Balanced) (ht : t.dataset.Reachable) (hc : c.incoming? = none) :
    (t.answer c).Balanced := by
  refine answer_of_perm ht (fun i hi => by rw [hc] at hi; cases hi) ?_
  rw [hc]
  show (t.account ++ []).Perm _
  rw [List.append_nil]
  exact h

theorem merge (h : t.Balanced) (hother : other.Balanced) (ht : t.dataset.Reachable)
    (hincoming : other.dataset.Reachable) (matcher : Merge.Matcher) (options : Merge.Options) :
    ((t.during other).answer (.merge other.dataset matcher options)).Balanced := by
  refine answer_of_perm ht (fun i hi => by cases hi; exact hincoming) ?_
  show ((t.during other).account ++ (other.dataset.due ++ [])).Perm
    ((t.merges ++ other.merges).flatMap told)
  -- what was to come from the other pipeline now comes from the merge, or is lost with it
  have haccount : ((t.during other).account ++ other.dataset.due).Perm
      (t.account ++ other.account) := by
    classical
    rw [List.perm_iff_count]
    intro report
    unfold account Trace.during
    simp only [finishes_append, List.flatMap_append, List.count_append]
    omega
  rw [List.append_nil, List.flatMap_append]
  exact haccount.trans (h.append hother)

theorem look (h : t.Balanced) (ht : t.dataset.Reachable) {α : Type} {way : Dataset → Outcome α}
    (hway : Dataset.Looks way) : (t.look way).Balanced := by
  obtain ⟨a, heq⟩ := ht.nested.look_eq hway
  obtain ⟨hdue, hfinishes⟩ := ht.nested.due_get
  have haccount : (t.look way).account = t.account := by
    unfold account Trace.look
    dsimp only
    rw [heq, finishes_append, hfinishes, hdue, List.append_nil]
  unfold Balanced
  rw [haccount]
  exact h

end Balanced

end Trace

/-! ## Whole pipelines -/

theorem finishes_ofContent (readers : Load.Readers) (format : Load.Format)
    (schema : Option Schema) (content : Option (List UInt8)) :
    finishes (Load.ofContent readers format schema content).1 = [] := by
  unfold Load.ofContent
  split
  · rfl
  · rfl
  · unfold Load.ofCsv
    split
    · rfl
    · split <;> rfl
  · split
    · rfl
    · unfold Load.ofJson
      dsimp only
      split <;> rfl

/-- Starting from a source reports no merges. -/
theorem finishes_source (s : Source) (observer : Option Observer) :
    finishes (s.datasetWith observer).1 = [] := by
  cases s with
  | records vs => rfl
  | nested v level => rfl
  | file readers path options content =>
    show finishes (Load.ofFile readers path options content).1 = []
    unfold Load.ofFile
    split
    · rfl
    · exact finishes_ofContent _ _ _ _

theorem due_source {s : Source} {observer : Option Observer} {d : Dataset}
    (h : (s.datasetWith observer).2 = .ok d) : d.due = [] := by
  obtain ⟨node, -, hdata⟩ := Dataset.source_data h
  unfold Dataset.due
  rw [hdata, Data.released_ofNode]
  rfl

namespace Pipeline

variable {p : Pipeline} {t : Trace}

theorem reachable_of_run (h : p.run = .ok t) : t.dataset.Reachable := by
  induction p generalizing t with
  | source s observer =>
    obtain ⟨d, hd, ⟨⟩⟩ := bind_eq_ok_iff.1 h
    exact .source s observer hd
  | call before c hc ih =>
    obtain ⟨t, ht, ⟨⟩⟩ := bind_eq_ok_iff.1 h
    exact (ih ht).answer fun i hi => by rw [hc] at hi; cases hi
  | merge before incoming matcher options ih ihIncoming =>
    obtain ⟨t, ht, hrest⟩ := bind_eq_ok_iff.1 h
    obtain ⟨other, hother, ⟨⟩⟩ := bind_eq_ok_iff.1 hrest
    exact (ih ht).answer fun i hi => by cases hi; exact ihIncoming hother
  | look before way hway ih =>
    obtain ⟨t, ht, ⟨⟩⟩ := bind_eq_ok_iff.1 h
    obtain ⟨a, heq⟩ := (ih ht).nested.look_eq hway
    show (way t.dataset).dataset.Reachable
    rw [heq]
    exact (ih ht).answer (c := .get) nofun

theorem balanced_of_run (h : p.run = .ok t) : t.Balanced := by
  induction p generalizing t with
  | source s observer =>
    obtain ⟨d, hd, ⟨⟩⟩ := bind_eq_ok_iff.1 h
    unfold Trace.Balanced Trace.account Trace.start
    dsimp only
    rw [finishes_source, due_source hd]
    exact .refl []
  | call before c hc ih =>
    obtain ⟨t, ht, ⟨⟩⟩ := bind_eq_ok_iff.1 h
    exact (ih ht).answer (reachable_of_run ht) hc
  | merge before incoming matcher options ih ihIncoming =>
    obtain ⟨t, ht, hrest⟩ := bind_eq_ok_iff.1 h
    obtain ⟨other, hother, ⟨⟩⟩ := bind_eq_ok_iff.1 hrest
    exact (ih ht).merge (ihIncoming hother) (reachable_of_run ht) (reachable_of_run hother) matcher
      options
  | look before way hway ih =>
    obtain ⟨t, ht, ⟨⟩⟩ := bind_eq_ok_iff.1 h
    exact (ih ht).look (reachable_of_run ht) hway

/-- A pipeline and the same without looks both fail, or both go through and agree. -/
theorem agree_bare (p : Pipeline) : Trace.Agree p.run p.bare.run := by
  induction p with
  | source s observer => exact .refl _
  | call before c hc ih =>
    refine ih.bind fun t t₀ _ h => .ok (h.answer (h.dataset.answer c) ?_)
    rw [Call.merged_of_incoming?_none hc, Call.merged_of_incoming?_none hc]
  | merge before incoming matcher options ih ihIncoming =>
    refine ih.bind fun t t₀ _ h => ihIncoming.bind fun other other₀ _ hother => .ok ?_
    exact (h.during hother).answer (h.dataset.merge hother.dataset matcher options).valueless
      (h.dataset.merged_eq hother.dataset matcher options)
  | look before way hway ih =>
    have hagree : Trace.Agree (before.look way hway).run (before.bare.run >>= pure) :=
      ih.bind fun t t₀ ht h => .ok (h.look (reachable_of_run ht).nested hway)
    rwa [bind_pure] at hagree

/-- **Looking is transparent.** A pipeline with looks fails where the same without looks does, and
else its steps return the same at the same levels and its dataset cannot be told apart from the
other. The merges have the same counters: what was reported, what the final value reports and what
was lost in refused merges are one report of each. On the way the value stays the same when it is
asked for again, and a function applied while it is written leaves the data as they were. -/
theorem looks_change_nothing (p : Pipeline) :
    (∀ e, p.run = .error e ↔ p.bare.run = .error e) ∧
      ∀ t t₀, p.run = .ok t → p.bare.run = .ok t₀ →
        t.steps = t₀.steps ∧ t.dataset.level = t₀.dataset.level ∧
        (∃ v, t.dataset.intoValue.2 = .ok v ∧ t₀.dataset.intoValue.2 = .ok v) ∧
        (∀ use, Dataset.Use.shows t.dataset use = Dataset.Use.shows t₀.dataset use) ∧
        t.merges = t₀.merges ∧
        (∀ u ∈ [t, t₀],
          (finishes (u.released ++ u.dataset.intoValue.1) ++ u.lost.flatMap Dataset.due).Perm
            (u.merges.flatMap told)) ∧
        (∃ v, t.dataset.get.result = .ok v ∧ t.dataset.get.dataset.get.result = .ok v) ∧
        ∀ f, (t.dataset.getWith f).result =
            ((t.dataset.map f).andThen fun _ d => d.get).result ∧
          t.dataset.Alike (t.dataset.getWith f).dataset := by
  refine ⟨fun e => (agree_bare p).error_iff, fun t t₀ ht ht₀ => ?_⟩
  have hagrees := (agree_bare p).agrees ht ht₀
  have hd := (reachable_of_run ht).nested
  obtain ⟨v, hv, hvalue⟩ := hd.intoValue_eq
  have hget : t.dataset.get.result = .ok v := hd.result_get.trans hv
  have hvalue : t.dataset.intoValue.2 = .ok v := by rw [hvalue]
  refine ⟨hagrees.steps, hagrees.dataset.level, ⟨v, hvalue, ?_⟩,
    hagrees.dataset.shows_eq, hagrees.merges, ?_, ⟨v, hget, ?_⟩, fun f => ⟨?_, ?_⟩⟩
  · rw [← hagrees.dataset.intoValue_eq, hvalue]
  · have hperm : ∀ {p : Pipeline} {u : Trace}, p.run = .ok u →
        (finishes (u.released ++ u.dataset.intoValue.1) ++ u.lost.flatMap Dataset.due).Perm
          (u.merges.flatMap told) := by
      intro p u hu
      rw [finishes_append, (reachable_of_run hu).nested.finishes_intoValue]
      exact balanced_of_run hu
    intro u hu
    simp only [List.mem_cons, List.not_mem_nil, or_false] at hu
    rcases hu with rfl | rfl
    · exact hperm ht
    · exact hperm ht₀
  · exact hd.alike_get.get.result.trans hget
  · exact hd.result_getWith f
  · obtain ⟨w, -, hgetWith⟩ := hd.getWith_eq f
    rw [hgetWith]
    exact hd.alike_get

/-- The target, the dataset that is merged into it and the result are looked at. The merge reports
once, with looks and without. -/
theorem looks_change_nothing_of_looks_around_merge :
    let target := Pipeline.source (.records [.null, .bool true, .null]) (some (.named "rows"))
    let incoming := Pipeline.source (.records [.null]) none
    let merged := (target.look _ .get).merge (incoming.look _ (.inspect id)) (.records .inner) {}
    let p := merged.look _ (.getWith fun v => .array [v])
    ∃ t t₀, p.run = .ok t ∧ p.bare.run = .ok t₀ ∧ t.steps = t₀.steps ∧ t.merges = t₀.merges ∧
      ∀ u ∈ [t, t₀], (finishes (u.released ++ u.dataset.intoValue.1)).length = 1 := by
  intro target incoming merged p
  obtain ⟨t, ht, htold, hlost⟩ : ∃ t, p.run = .ok t ∧ (t.merges.flatMap told).length = 1 ∧
      t.lost = [] := ⟨_, rfl, rfl, rfl⟩
  obtain ⟨t₀, ht₀, hlost₀⟩ : ∃ t₀, p.bare.run = .ok t₀ ∧ t₀.lost = [] := ⟨_, rfl, rfl⟩
  obtain ⟨hsteps, -, -, -, hmerges, hreports, -⟩ := (looks_change_nothing p).2 t t₀ ht ht₀
  refine ⟨t, t₀, ht, ht₀, hsteps, hmerges, fun u hu => ?_⟩
  have hlength := (hreports u hu).length_eq
  simp only [List.mem_cons, List.not_mem_nil, or_false] at hu
  rcases hu with rfl | rfl
  · rw [htold, hlost] at hlength
    simpa using hlength
  · rw [← hmerges, htold, hlost₀] at hlength
    simpa using hlength

end Pipeline

end RecordFlow
