import RecordFlow.Proofs.Dataset.Pipeline
import RecordFlow.Proofs.Dataset.Refusal

/-!
# Levels told by events

Events of operations tell the level before and after, and events of materializations the level at
which they happen. Replayed from the level that a dataset starts at (`Event.replay?`), the events of
its calls lead to its level, whatever calls are made and whichever of them fail
(`Dataset.events_replay_level`).
-/

namespace RecordFlow

/-! ## Replaying events -/

namespace Event

/-- The level after an event, if the event fits the level before it. -/
def next? (level : Nat) : Event → Option Nat
  | .applied _ before after => if before = level then some after else none
  | .materialized l => if l = level then some level else none
  | .mergeFinished _ => some level

/-- The level that events in a row lead to, if each fits the level that those before it lead to. -/
def replay? (level : Nat) (events : List Event) : Option Nat := events.foldlM next? level

/-- The levels before and after an operation. -/
def change? : Event → Option (Nat × Nat)
  | .applied _ before after => some (before, after)
  | _ => none

/-- The changes of level among events. -/
def changes (events : List Event) : List (Nat × Nat) := events.filterMap change?

variable {events more : List Event} {first middle last : Nat}

theorem replay?_append (h : replay? first events = some middle) :
    replay? first (events ++ more) = replay? middle more := by
  unfold replay? at h ⊢
  rw [List.foldlM_append, h]
  rfl

/-- Events that can be replayed form a chain: each operation starts at the level at which the one
before it ended. -/
theorem changes_of_replay? (h : replay? first events = some last) :
    first :: (changes events).map Prod.snd = (changes events).map Prod.fst ++ [last] := by
  induction events generalizing first with
  | nil =>
    cases h
    rfl
  | cons event events ih =>
    obtain ⟨middle, hnext, hrest⟩ := Option.bind_eq_some_iff.1 h
    have ih := ih hrest
    cases event with
    | applied operation before after =>
      obtain ⟨hbefore, hafter⟩ := Option.ite_none_right_eq_some.1 hnext
      cases hafter
      rw [← hbefore]
      exact congrArg (before :: ·) ih
    | materialized level =>
      obtain ⟨-, hmiddle⟩ := Option.ite_none_right_eq_some.1 hnext
      cases hmiddle
      exact ih
    | mergeFinished stats =>
      cases hnext
      exact ih

end Event

/-! ## Reports of levels -/

/-- Who is told of a level, and by which event. -/
def Emission.levelReport? : Emission → Option (Observer × Event)
  | .notify _ (.mergeFinished _) => none
  | .notify observer event => some (observer, event)
  | .log _ _ => none

/-- The events among emissions that tell of levels: all but those of finished merges. -/
def levelReports (es : List Emission) : List (Observer × Event) :=
  es.filterMap Emission.levelReport?

@[simp] theorem levelReports_append (es fs : List Emission) :
    levelReports (es ++ fs) = levelReports es ++ levelReports fs := List.filterMap_append

/-- Pending merges tell of no level. -/
theorem Merge.Pending.levelReports_released (p : Merge.Pending) :
    levelReports p.released = [] := by
  induction p with
  | nothing => rfl
  | merge job onLeft onRight ihLeft ihRight =>
    have hreport : levelReports job.report = [] := by
      unfold Merge.Job.report Merge.closing Emission.announce
      cases job.observer <;> rfl
    simp only [Merge.Pending.released, levelReports_append, ihLeft, ihRight, hreport,
      List.append_nil]

/-- The events that tell of the level when a call succeeds on a dataset of a level. Reducing folds
first, and then ungroups unless the level is zero. -/
def Call.events (level : Nat) : Call → List Event
  | .map _ => [.applied .map level level]
  | .filter _ => [.applied .filter level level]
  | .sort _ => [.applied .sort level level]
  | .group _ => [.applied .group level (level + 1)]
  | .distinct _ => [.applied .distinct level level]
  | .ungroup _ => [.applied .ungroup level (level - 1)]
  | .reduceKeep _ => [.applied .reduce level level]
  | .reduceWith _ ungroupAfter =>
    if ungroupAfter && 0 < level then
      [.applied .reduce level level, .applied .ungroup level (level - 1)]
    else [.applied .reduce level level]
  | .merge _ _ _ => [.applied .merge level level]
  | .observe _ => []
  | .get => [.materialized level]
  | .inspect _ => [.materialized level]
  | .getWith _ => [.materialized level]

namespace Dataset

variable {d after : Dataset} {o : Observer} {c : Call} {calls : List Call}

/-- The events that tell of the level when calls are made in a row. A call that fails has none. -/
def events (d : Dataset) : List Call → List Event
  | [] => []
  | c :: calls =>
    (match (d.answer c).result with
      | .ok _ => c.events d.level
      | .error _ => []) ++ (d.answer c).dataset.events calls

/-! ## One call -/

/-- From a dataset on, an observer is told events that lead to the level of the dataset after it. -/
structure Tells (o : Observer) (d : Dataset) (events : List Event) (released : List Emission)
    (after : Dataset) : Prop where
  reports : levelReports released = events.map fun event => (o, event)
  level : Event.replay? d.level events = some after.level
  observer : after.observer = some o

theorem Tells.append {events events' : List Event} {es fs : List Emission} {middle : Dataset}
    (h : Tells o d events es middle) (h' : Tells o middle events' fs after) :
    Tells o d (events ++ events') (es ++ fs) after where
  reports := by rw [levelReports_append, h.reports, h'.reports, List.map_append]
  level := (Event.replay?_append h.level).trans h'.level
  observer := h'.observer

/-- Pulling everything tells of no level. -/
theorem Reachable.levelReports_released (h : Reachable d) : levelReports d.data.released = [] := by
  obtain ⟨p, hp⟩ := h.awaits
  have hreleased : d.data.released = p.released := hp.governs.released_eq
  rw [hreleased]
  exact p.levelReports_released

section OneCall

variable (hobserver : d.observer = some o)

include hobserver

/-- An operation that succeeds tells of its own change of level, and of nothing else. -/
theorem tells_of_report (after : Dataset) (operation : Operation) (es : List Emission)
    (hafter : after.observer = d.observer) (hes : levelReports es = []) :
    Tells o d [.applied operation d.level after.level] (es ++ after.report operation d.level)
      after where
  reports := by
    unfold report Emission.announce
    rw [hafter, hobserver, levelReports_append, hes]
    rfl
  level := by simp [Event.replay?, Event.next?]
  observer := hafter.trans hobserver

theorem tells_chain (operation : Operation) (s : Stage) :
    Tells o d [.applied operation d.level d.level] (d.chain operation s).released
      (d.chain operation s).dataset :=
  tells_of_report hobserver { d with data := d.data.mapBase s d.level } operation [] rfl rfl

theorem Reachable.tells_ungroup (h : Reachable d) {f : Value → Value}
    (hok : (d.ungroup f).result = .ok ()) :
    Tells o d [.applied .ungroup d.level (d.level - 1)] (d.ungroup f).released
      (d.ungroup f).dataset := by
  match hlevel : d.level with
  | 0 =>
    rw [ungroup_of_zero hlevel] at hok
    cases hok
  | 1 =>
    rw [ungroup_of_one hlevel] at hok ⊢
    rcases h.nested.collapse_cases hlevel with ⟨v, hitems⟩ | hcount
    · rw [collapse_of_single hitems]
      have htells := tells_of_report hobserver { d with data := .item v, level := 0 } .ungroup _ rfl
        h.levelReports_released
      rw [hlevel] at htells
      exact htells
    · rw [h.nested.collapse_of_length_ne hlevel hcount] at hok
      cases hok
  | level + 2 =>
    rw [ungroup_of_succ hlevel]
    have htells := tells_of_report hobserver
      { d with data := d.data.mapBase (.flatten f) (level + 1), level := level + 1 } .ungroup [] rfl
      rfl
    rw [hlevel] at htells
    exact htells

theorem Reachable.tells_reduceWith (h : Reachable d) (r : Reducer) (ungroupAfter : Bool) :
    Tells o d (Call.events d.level (.reduceWith r ungroupAfter))
      (d.reduceWith r ungroupAfter).released (d.reduceWith r ungroupAfter).dataset := by
  have hkeep := tells_chain hobserver .reduce (.reduce r)
  have hresult := h.nested.reduceWith_result r ungroupAfter
  dsimp only [Call.events]
  rw [reduceWith_eq] at hresult ⊢
  split_ifs at hresult ⊢
  · have hreachable : Reachable (d.reduceKeep r).dataset := h.answer (c := .reduceKeep r) nofun
    exact hkeep.append (hreachable.tells_ungroup hkeep.observer hresult)
  · exact hkeep

theorem tells_merge {incoming : Dataset} {matcher : Merge.Matcher} {options : Merge.Options}
    (hok : (d.merge incoming matcher options).result = .ok ()) :
    Tells o d [.applied .merge d.level d.level] (d.merge incoming matcher options).released
      (d.merge incoming matcher options).dataset := by
  by_cases hdepth : d.level ≠ 1 ∨ incoming.level ≠ 1
  · rw [merge_of_depth hdepth] at hok
    cases hok
  · obtain ⟨hd, hi⟩ : d.level = 1 ∧ incoming.level = 1 := by simpa [not_or] using hdepth
    cases hplan : Merge.Plan.make matcher options with
    | error e =>
      rw [merge_of_error hd hi hplan] at hok
      cases hok
    | ok plan =>
      rw [merge_of_plan hd hi hplan]
      have htells := tells_of_report hobserver
        { d with data := .nodes (Merge.feeds plan d.observer d.data.toFeed incoming.data.toFeed) }
        .merge [.log .debug ("merge with " ++ plan.describe)] rfl rfl
      dsimp only at htells ⊢
      unfold report at htells ⊢
      rw [hd] at htells
      rw [hd]
      exact htells

theorem Reachable.tells_get (h : Reachable d) :
    Tells o d [.materialized d.level] d.get.released d.get.dataset := by
  obtain ⟨v, -, hget⟩ := h.nested.get_eq
  rw [hget]
  refine ⟨?_, by simp [Event.replay?, Event.next?], hobserver⟩
  unfold Emission.announce
  rw [hobserver, levelReports_append, h.levelReports_released]
  rfl

theorem Reachable.tells_look (h : Reachable d) {α : Type} {way : Dataset → Outcome α}
    (hway : Looks way) :
    Tells o d [.materialized d.level] (way d).released (way d).dataset := by
  obtain ⟨a, heq⟩ := h.nested.look_eq hway
  rw [heq]
  exact h.tells_get hobserver

/-- A call that succeeds tells of what it does to the level. -/
theorem Reachable.tells_of_ok (h : Reachable d) {v : Option Value}
    (hok : (d.answer c).result = .ok v) (hsame : ∀ o', c = .observe o' → o' = o) :
    Tells o d (c.events d.level) (d.answer c).released (d.answer c).dataset := by
  cases c with
  | map f => exact tells_chain hobserver .map (.map f)
  | filter p => exact tells_chain hobserver .filter (.filter p)
  | sort sorting =>
    have hsort := tells_chain hobserver .sort (.sort sorting)
    exact ⟨hsort.reports, hsort.level, hsort.observer⟩
  | group keyOf =>
    exact tells_of_report hobserver
      { d with data := d.data.mapBase (.group keyOf) d.level, level := d.level + 1 } .group [] rfl
      rfl
  | distinct keyOf => exact tells_chain hobserver .distinct (.distinct keyOf)
  | ungroup f =>
    obtain ⟨⟨⟨⟩, hungroup⟩, -⟩ := Outcome.valueless_eq_ok_iff.1 hok
    exact h.tells_ungroup hobserver hungroup
  | reduceKeep r => exact tells_chain hobserver .reduce (.reduce r)
  | reduceWith r ungroupAfter => exact h.tells_reduceWith hobserver r ungroupAfter
  | merge incoming matcher options =>
    obtain ⟨⟨⟨⟩, hmerge⟩, -⟩ := Outcome.valueless_eq_ok_iff.1 hok
    exact tells_merge hobserver hmerge
  | observe observer =>
    rw [hsame observer rfl]
    exact ⟨rfl, rfl, rfl⟩
  | get => exact h.tells_look hobserver .get
  | inspect see => exact h.tells_look hobserver (.inspect see)
  | getWith f => exact h.tells_look hobserver (.getWith f)

/-- A call that fails tells of nothing. -/
theorem Reachable.tells_of_error (h : Reachable d) {e : Error}
    (hfail : (d.answer c).result = .error e) :
    Tells o d [] (d.answer c).released (d.answer c).dataset := by
  have hrefused : d.Refuses c e := h.nested.answer_eq_error_iff.1 hfail
  have halike := h.nested.alike_of_refuses hrefused
  refine ⟨?_, congrArg some halike.level.symm, halike.observer.trans hobserver⟩
  rcases h.nested.refused_cases hrefused with ⟨-, hsilent⟩ | ⟨-, -, hpulled⟩
  · rw [hsilent]
    rfl
  · rw [hpulled, h.levelReports_released]
    rfl

end OneCall

/-! ## Whole runs -/

/-- Calls in a row tell of their changes of level, one after another. -/
theorem Reachable.tells_run (h : Reachable d) (hobserver : d.observer = some o)
    (hcalls : ∀ c ∈ calls, ∀ incoming, c.incoming? = some incoming → Reachable incoming)
    (hsame : ∀ o', .observe o' ∈ calls → o' = o) :
    Tells o d (d.events calls) (d.releases calls) (d.run calls) := by
  induction calls generalizing d with
  | nil => exact ⟨rfl, rfl, hobserver⟩
  | cons c calls ih =>
    have hstep : Tells o d (match (d.answer c).result with
        | .ok _ => c.events d.level
        | .error _ => []) (d.answer c).released (d.answer c).dataset := by
      cases hresult : (d.answer c).result with
      | error e => exact h.tells_of_error hobserver hresult
      | ok v =>
        exact h.tells_of_ok hobserver hresult fun o' ho' => hsame o' (ho' ▸ List.mem_cons_self)
    have hreachable : Reachable (d.answer c).dataset := h.answer (hcalls c List.mem_cons_self)
    exact hstep.append (ih hreachable hstep.observer
      (fun c' hc' => hcalls c' (List.mem_cons_of_mem c hc'))
      fun o' ho' => hsame o' (List.mem_cons_of_mem c ho'))

/-- **Events replay the level.** The events that tell of levels are those of the calls that succeed,
one for each operation, and all of them go to the observer. Replayed from the first level, they lead
to the level after the calls, each operation starting at the level at which the one before it ended
and each materialization at the level reached; since the calls are any, that is so after each of
them. Looking at the data, and taking them at the end, tells what getting them does. -/
theorem events_replay_level (h : Reachable d) (hobserver : d.observer = some o) :
    (∀ calls : List Call,
      (∀ c ∈ calls, ∀ incoming, c.incoming? = some incoming → Reachable incoming) →
      (∀ o', .observe o' ∈ calls → o' = o) →
        levelReports (d.releases calls) = (d.events calls).map (fun event => (o, event)) ∧
        Event.replay? d.level (d.events calls) = some (d.run calls).level ∧
        d.level :: (Event.changes (d.events calls)).map Prod.snd =
          (Event.changes (d.events calls)).map Prod.fst ++ [(d.run calls).level]) ∧
      (∀ (α : Type) (see : Value → α), (d.inspect see).dataset = d.get.dataset ∧
        (d.inspect see).released = d.get.released) ∧
      (∀ f, (d.getWith f).dataset = d.get.dataset ∧ (d.getWith f).released = d.get.released) ∧
      levelReports d.intoValue.1 = [(o, .materialized d.level)] := by
  refine ⟨fun calls hcalls hsame => ?_, fun α see => ?_, fun f => ?_, ?_⟩
  · have hrun := h.tells_run hobserver hcalls hsame
    exact ⟨hrun.reports, hrun.level, Event.changes_of_replay? hrun.level⟩
  · obtain ⟨v, -, hinspect⟩ := h.nested.inspect_eq see
    rw [hinspect]
    exact ⟨rfl, rfl⟩
  · obtain ⟨v, -, hgetWith⟩ := h.nested.getWith_eq f
    rw [hgetWith]
    exact ⟨rfl, rfl⟩
  · obtain ⟨v, -, hget⟩ := h.nested.get_eq
    obtain ⟨w, -, hvalue⟩ := h.nested.intoValue_eq
    have hreports := (h.tells_get hobserver).reports
    rw [hget] at hreports
    rw [hvalue]
    exact hreports

/-- Two records are grouped by themselves and the groups folded, once to records and once to a
single one, with two calls in between that fail. -/
theorem events_replay_level_of_failed_calls :
    let o : Observer := .named "levels"
    let d := { ofRecords [.null, .bool true] with observer := some o }
    let calls : List Call :=
      [.flatten, .group id, .reduce (.fold .array), .get, .reduce (.fold .array), .flatten]
    Reachable d ∧ d.observer = some o ∧ (d.run calls).level = 0 ∧
      levelReports (d.releases calls) =
        [(o, .applied .group 1 2), (o, .applied .reduce 2 2), (o, .applied .ungroup 2 1),
          (o, .materialized 1), (o, .applied .reduce 1 1), (o, .applied .ungroup 1 0)] := by
  intro o d calls
  have hd : Reachable d := .source (.records [.null, .bool true]) (some o) rfl
  have hnone : ∀ c ∈ calls, c.incoming? = none ∧ ∀ o', c ≠ .observe o' := by
    intro c hc
    simp only [calls, List.mem_cons, List.not_mem_nil, or_false] at hc
    rcases hc with rfl | rfl | rfl | rfl | rfl | rfl <;> exact ⟨rfl, nofun⟩
  obtain ⟨hreports, hlevel, -⟩ := (events_replay_level hd rfl).1 calls
    (fun c hc i hi => by rw [(hnone c hc).1] at hi; cases hi)
    fun o' ho' => absurd rfl ((hnone _ ho').2 o')
  have hevents : d.events calls =
      [.applied .group 1 2, .applied .reduce 2 2, .applied .ungroup 2 1, .materialized 1,
        .applied .reduce 1 1, .applied .ungroup 1 0] := by decide +kernel
  rw [hevents] at hreports hlevel
  exact ⟨hd, rfl, (Option.some.inj hlevel).symm, hreports⟩

end Dataset

end RecordFlow
