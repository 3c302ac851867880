import RecordFlow.Proofs.Merge.Run

/-!
# Pending merges

A merge reports once its output is found to be exhausted. Until then it is pending in everything
that is made of its output, and so are the merges that feed its sides (`Pending`). Pulls show how
far each of them is (`Pending.Shows`): a merge reports after all rows of it were delivered, and
after the merges that feed its left and then its right side.
-/

namespace RecordFlow

/-! ## Reports -/

/-- Who is told that a merge is finished, and its counters. -/
def Emission.finished? : Emission → Option (Observer × MergeStats)
  | .notify observer (.mergeFinished stats) => some (observer, stats)
  | _ => none

/-- The reports of finished merges among emissions. -/
def finishes (es : List Emission) : List (Observer × MergeStats) :=
  es.filterMap Emission.finished?

@[simp] theorem finishes_nil : finishes [] = [] := rfl

@[simp] theorem finishes_append (es fs : List Emission) :
    finishes (es ++ fs) = finishes es ++ finishes fs := List.filterMap_append

@[simp] theorem finishes_materialized (observer : Option Observer) (level : Nat) :
    finishes (Emission.announce observer (.materialized level)) = [] := by
  cases observer <;> rfl

namespace Merge

theorem finishes_closing (observer : Option Observer) (stats : MergeStats) :
    finishes (closing observer stats) = observer.toList.map fun o => (o, stats) := by
  cases observer <;> rfl

/-! ## Pending merges -/

/-- A merge that was called for, with its sides as they were then. -/
structure Job where
  plan : Plan
  /-- Who was told of the events of the target. -/
  observer : Option Observer
  left : Feed Node
  right : Feed Node

namespace Job

variable (job : Job)

/-- The output of a merge. -/
def output : Feed Node := feeds job.plan job.observer job.left job.right

/-- The counters of a merge whose output is exhausted. -/
def stats : MergeStats := job.plan.account (rowsOf job.left) (rowsOf job.right)

/-- What a merge sets free when its output is found to be exhausted. -/
def report : List Emission := closing job.observer job.stats

/-- Pulls of the output pull the left side to its end and some of the right side, and report at the
end. -/
theorem take_output (n : Nat) :
    ∃ m, (job.output.take (n + 1)).1 = job.left.released ++ (job.right.take m).1 ++
        (if job.output.length < n + 1 then job.report else []) ∧
      (job.output.length < n + 1 → job.right.length < m) :=
  take_feeds job.plan job.observer job.left job.right n

end Job

/-- Merges that may have output left: none, or a last one and those that feed its sides. -/
inductive Pending where
  | nothing
  | merge (job : Job) (onLeft onRight : Pending)

namespace Pending

/-- All reports that are to come: those of a merge after those that feed its left and then its
right side. -/
def released : Pending → List Emission
  | nothing => []
  | merge job onLeft onRight => onLeft.released ++ onRight.released ++ job.report

/-- What so many pulls of the output of the last merge have set free. The first pull pulls the left
side to its end, and only a pull past the last row finds the end of the output. -/
inductive Shows : Pending → Nat → List Emission → Prop where
  | nothing (k : Nat) : Shows nothing k []
  | unpulled (job : Job) (onLeft onRight : Pending) : Shows (merge job onLeft onRight) 0 []
  | underWay {job : Job} {onLeft onRight : Pending} {k j : Nat} {es : List Emission} (hpos : 0 < k)
    (hk : k ≤ job.output.length) (hright : Shows onRight j es) :
    Shows (merge job onLeft onRight) k (onLeft.released ++ es)
  | exhausted {job : Job} {onLeft onRight : Pending} {k : Nat} (hk : job.output.length < k) :
    Shows (merge job onLeft onRight) k (merge job onLeft onRight).released

/-- Pulling a feed is pulling the output of the last pending merge: after any pulls of the feed, the
output has been pulled some number of times, and the end of the feed is found after its end. -/
def Governs {α : Type} (p : Pending) (feed : Feed α) : Prop :=
  ∃ pulled : Nat → Nat, pulled 0 = 0 ∧ Monotone pulled ∧
    ∀ n, p.Shows (pulled n) (feed.take n).1 ∧ (feed.length < n → (feed.take n).1 = p.released)

/-! ### Governed feeds -/

variable {α β : Type} {p q : Pending} {feed : Feed α} {out : Feed β}

theorem governs_of_released_nil (h : feed.released = []) : nothing.Governs feed := by
  refine ⟨fun _ => 0, rfl, monotone_const, fun n => ?_⟩
  rw [Feed.take_of_released_nil h]
  exact ⟨.nothing 0, fun _ => rfl⟩

namespace Governs

theorem released_eq (h : p.Governs feed) : feed.released = p.released := by
  obtain ⟨pulled, -, -, h⟩ := h
  rw [← (h _).2 (Nat.lt_succ_self _), Feed.take_of_length_lt (Nat.lt_succ_self _)]

/-- What reads a feed has the same merges pending. -/
theorem reads (h : p.Governs feed) (hout : out.Reads feed) : p.Governs out := by
  obtain ⟨pulled, hzero, hmono, h⟩ := h
  obtain ⟨taken, htaken, hmono', hout⟩ := hout
  refine ⟨pulled ∘ taken, (congrArg pulled htaken).trans hzero, hmono.comp hmono', fun n => ?_⟩
  rw [(hout n).1]
  exact ⟨(h _).1, fun hn => (h _).2 ((hout n).2 hn)⟩

/-- Pulls of the output of a merge, one for one. -/
theorem shows_output {job : Job} (hleft : p.Governs job.left) (hright : q.Governs job.right)
    (n : Nat) : (merge job p q).Shows n (job.output.take n).1 := by
  cases n with
  | zero => exact .unpulled job p q
  | succ n =>
    obtain ⟨m, htake, hlast⟩ := job.take_output n
    rw [htake, hleft.released_eq]
    obtain ⟨pulled, -, -, h⟩ := hright
    by_cases hn : job.output.length < n + 1
    · rw [if_pos hn, (h m).2 (hlast hn)]
      exact .exhausted hn
    · rw [if_neg hn, List.append_nil]
      exact .underWay (Nat.succ_pos n) (Nat.le_of_not_lt hn) (h m).1

theorem merge {job : Job} (hleft : p.Governs job.left) (hright : q.Governs job.right) :
    (Pending.merge job p q).Governs job.output := by
  refine ⟨id, rfl, monotone_id, fun n => ⟨shows_output hleft hright n, fun hn => ?_⟩⟩
  rw [Feed.take_of_length_lt hn, Job.output, released_feeds, hleft.released_eq, hright.released_eq]
  rfl

end Governs

end Pending

end Merge

end RecordFlow
