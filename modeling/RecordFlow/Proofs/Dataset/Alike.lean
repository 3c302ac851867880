import RecordFlow.Proofs.Dataset.Nesting

/-!
# Datasets that cannot be told apart

What operations return depends on the items of a dataset and on its level, never on what pulling
the items sets free. So two datasets that hold the same items (`Dataset.Alike`) show the same in
every use (`Dataset.Use`), also where they are merged into others.
-/

namespace RecordFlow

/-- Two datasets hold the same at the same level and report to the same observer. What pulling them
sets free may differ. -/
structure Dataset.Alike (d d' : Dataset) : Prop where
  level : d'.level = d.level
  observer : d'.observer = d.observer
  node : d'.data.toNode = d.data.toNode

namespace Outcome

variable {α β : Type} {o o' : Outcome α}

/-- Two outcomes with one result that leave behind datasets alike. -/
structure Alike (o o' : Outcome α) : Prop where
  dataset : o.dataset.Alike o'.dataset
  result : o'.result = o.result

namespace Alike

theorem andThen {next : α → Dataset → Outcome β} (h : o.Alike o')
    (hnext : ∀ a d d', d.Alike d' → (next a d).Alike (next a d')) :
    (o.andThen next).Alike (o'.andThen next) := by
  unfold Outcome.andThen
  rw [h.result]
  cases o.result with
  | error e => exact ⟨h.dataset, rfl⟩
  | ok a =>
    have hafter := hnext a _ _ h.dataset
    exact ⟨hafter.dataset, hafter.result⟩

theorem valueless (h : o.Alike o') : o.valueless.Alike o'.valueless := by
  refine ⟨h.dataset, ?_⟩
  unfold Outcome.valueless
  rw [h.result]

theorem valued {o o' : Outcome Value} (h : o.Alike o') : o.valued.Alike o'.valued := by
  refine ⟨h.dataset, ?_⟩
  unfold Outcome.valued
  rw [h.result]

end Alike

end Outcome

namespace Dataset

variable {d d' incoming incoming' : Dataset}

namespace Alike

theorem refl (d : Dataset) : d.Alike d := ⟨rfl, rfl, rfl⟩

theorem trans {d'' : Dataset} (h : d.Alike d') (h' : d'.Alike d'') : d.Alike d'' :=
  ⟨h'.level.trans h.level, h'.observer.trans h.observer, h'.node.trans h.node⟩

/-! ## One call -/

theorem items_eq (h : d.Alike d') : d'.data.toFeed.items = d.data.toFeed.items := by
  rw [Data.items_toFeed, Data.items_toFeed, h.node]

theorem value_eq (h : d.Alike d') :
    (d'.data.toValue d'.level).2 = (d.data.toValue d.level).2 := by
  rw [Data.toValue_snd, Data.toValue_snd, h.node, h.level]

/-- A stage makes the same of the same items. -/
theorem mapBase_eq (h : d.Alike d') {s : Stage} {j k : Nat} (hs : s.Chained j k) (depth : Nat) :
    (d'.data.mapBase s depth).toNode = (d.data.mapBase s depth).toNode := by
  rw [Data.toNode_mapBase hs, Data.toNode_mapBase hs, h.node]

theorem chain (h : d.Alike d') (operation : Operation) {s : Stage} (hs : s.Chained 0 0) :
    (d.chain operation s).Alike (d'.chain operation s) := by
  refine ⟨⟨h.level, h.observer, ?_⟩, rfl⟩
  show (d'.data.mapBase s d'.level).toNode = (d.data.mapBase s d.level).toNode
  rw [h.level, h.mapBase_eq hs]

theorem group (h : d.Alike d') (keyOf : Value → Value) :
    (d.group keyOf).Alike (d'.group keyOf) := by
  refine ⟨⟨congrArg (· + 1) h.level, h.observer, ?_⟩, rfl⟩
  show (d'.data.mapBase (.group keyOf) d'.level).toNode =
    (d.data.mapBase (.group keyOf) d.level).toNode
  rw [h.level, h.mapBase_eq (.group keyOf)]

theorem collapse (h : d.Alike d') : d.collapse.Alike d'.collapse := by
  unfold Dataset.collapse
  dsimp only
  rw [h.items_eq]
  split <;> exact ⟨⟨h.level, h.observer, rfl⟩, rfl⟩

theorem ungroup (h : d.Alike d') (f : Value → Value) : (d.ungroup f).Alike (d'.ungroup f) := by
  match hlevel : d.level with
  | 0 =>
    rw [ungroup_of_zero hlevel, ungroup_of_zero (h.level.trans hlevel)]
    exact ⟨h, rfl⟩
  | 1 =>
    rw [ungroup_of_one hlevel, ungroup_of_one (h.level.trans hlevel)]
    refine h.collapse.andThen fun _ e e' he => ?_
    exact ⟨⟨rfl, he.observer, he.node⟩, rfl⟩
  | level + 2 =>
    rw [ungroup_of_succ hlevel, ungroup_of_succ (h.level.trans hlevel)]
    exact ⟨⟨rfl, h.observer, h.mapBase_eq (.flatten f) _⟩, rfl⟩

theorem reduceWith (h : d.Alike d') (r : Reducer) (ungroupAfter : Bool) :
    (d.reduceWith r ungroupAfter).Alike (d'.reduceWith r ungroupAfter) := by
  have hkeep : (d.reduceKeep r).Alike (d'.reduceKeep r) := h.chain .reduce (.reduce r)
  refine hkeep.andThen fun _ e e' he => ?_
  rw [he.level]
  split_ifs
  · exact he.ungroup _
  · exact ⟨he, rfl⟩

/-- Merging reads nothing but rows. -/
theorem merge (h : d.Alike d') (hi : incoming.Alike incoming') (matcher : Merge.Matcher)
    (options : Merge.Options) :
    (d.merge incoming matcher options).Alike (d'.merge incoming' matcher options) := by
  by_cases hdepth : d.level ≠ 1 ∨ incoming.level ≠ 1
  · have hdepth' : d'.level ≠ 1 ∨ incoming'.level ≠ 1 := by rwa [h.level, hi.level]
    rw [merge_of_depth hdepth, merge_of_depth hdepth', h.level, hi.level]
    exact ⟨h, rfl⟩
  · obtain ⟨hd, hd'⟩ : d.level = 1 ∧ incoming.level = 1 := by simpa [not_or] using hdepth
    cases hplan : Merge.Plan.make matcher options with
    | error e =>
      rw [merge_of_error hd hd' hplan, merge_of_error (h.level.trans hd) (hi.level.trans hd') hplan]
      exact ⟨h, rfl⟩
    | ok plan =>
      rw [merge_of_plan hd hd' hplan, merge_of_plan (h.level.trans hd) (hi.level.trans hd') hplan]
      refine ⟨⟨h.level, h.observer, congrArg Node.group ?_⟩, rfl⟩
      rw [Merge.items_feeds, Merge.items_feeds]
      unfold Merge.rowsOf
      rw [h.items_eq, hi.items_eq]

theorem get (h : d.Alike d') : d.get.Alike d'.get := by
  unfold Dataset.get
  dsimp only
  rw [h.value_eq, h.level]
  split <;> exact ⟨⟨rfl, h.observer, rfl⟩, rfl⟩

theorem inspect (h : d.Alike d') {α : Type} (see : Value → α) :
    (d.inspect see).Alike (d'.inspect see) :=
  h.get.andThen fun _ _ _ he => ⟨he, rfl⟩

theorem getWith (h : d.Alike d') (f : Value → Value) : (d.getWith f).Alike (d'.getWith f) := by
  refine h.get.andThen fun v e e' he => ⟨he, ?_⟩
  show (do Node.toValueWith f e'.level (← Node.ofValue? e'.level v)) = _
  rw [he.level]

/-- Datasets alike answer every call alike. -/
theorem answer (h : d.Alike d') (c : Call) : (d.answer c).Alike (d'.answer c) := by
  cases c with
  | map f => exact (h.chain .map (.map f)).valueless
  | filter p => exact (h.chain .filter (.filter p)).valueless
  | sort sorting =>
    have hsort := h.chain .sort (.sort sorting)
    exact Outcome.Alike.valueless ⟨hsort.dataset, hsort.result⟩
  | group keyOf => exact (h.group keyOf).valueless
  | distinct keyOf => exact (h.chain .distinct (.distinct keyOf)).valueless
  | ungroup f => exact (h.ungroup f).valueless
  | reduceKeep r => exact (h.chain .reduce (.reduce r)).valueless
  | reduceWith r ungroupAfter => exact (h.reduceWith r ungroupAfter).valueless
  | merge incoming matcher options => exact (h.merge (.refl incoming) matcher options).valueless
  | observe observer => exact ⟨⟨h.level, rfl, h.node⟩, rfl⟩
  | get => exact h.get.valued
  | inspect see => exact (h.inspect see).valued
  | getWith f => exact (h.getWith f).valued

end Alike

/-! ## Whole uses -/

/-- What can be done with a dataset: calls on it and, at its end, taking its value or its first
items, or merging it into another dataset, which is used in turn. -/
inductive Use where
  | leave
  | call (c : Call) (next : Use)
  | intoValue
  | iterate (count : Nat)
  | mergeInto (target : Dataset) (matcher : Merge.Matcher) (options : Merge.Options) (next : Use)

/-- What is seen of a dataset at one step of a use. -/
inductive Sight where
  | answer (result : Except Error (Option Value)) (level : Nat)
  | value (result : Except Error Value)
  | items (items : List Node)

namespace Use

/-- What a use shows, step by step. -/
def shows (d : Dataset) : Use → List Sight
  | leave => []
  | call c next =>
    let o := d.answer c
    .answer o.result o.dataset.level :: next.shows o.dataset
  | intoValue => [.value d.intoValue.2]
  | iterate count => [.items (d.data.toFeed.take count).2]
  | mergeInto target matcher options next =>
    let o := target.answer (.merge d matcher options)
    .answer o.result o.dataset.level :: next.shows o.dataset

end Use

theorem Alike.intoValue_eq (h : d.Alike d') : d'.intoValue.2 = d.intoValue.2 := by
  unfold Dataset.intoValue
  dsimp only
  rw [h.value_eq]
  split <;> rfl

/-- No use tells datasets apart that are alike. -/
theorem Alike.shows_eq (h : d.Alike d') (use : Use) : use.shows d' = use.shows d := by
  -- a step leaves datasets alike, so what is seen from there on is the same
  have hstep : ∀ {o o' : Outcome (Option Value)} {next : Use}, o.Alike o' →
      (∀ {e e' : Dataset}, e.Alike e' → next.shows e' = next.shows e) →
      Sight.answer o'.result o'.dataset.level :: next.shows o'.dataset =
        .answer o.result o.dataset.level :: next.shows o.dataset := by
    intro o o' next ho ih
    rw [ho.result, ho.dataset.level, ih ho.dataset]
  induction use generalizing d d' with
  | leave => rfl
  | call c next ih => exact hstep (h.answer c) ih
  | intoValue => exact congrArg (fun v => [Sight.value v]) h.intoValue_eq
  | iterate count =>
    show [Sight.items (d'.data.toFeed.take count).2] = [.items (d.data.toFeed.take count).2]
    rw [Feed.take_snd, Feed.take_snd, h.items_eq]
  | mergeInto target matcher options next ih =>
    exact hstep (Alike.merge (.refl target) h matcher options).valueless ih

end Dataset

end RecordFlow
