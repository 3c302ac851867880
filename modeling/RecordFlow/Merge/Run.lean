import RecordFlow.Buckets
import RecordFlow.Feed
import RecordFlow.Merge.Plan
import RecordFlow.Node

/-!
# Running a merge

A merge first gathers the left rows by key. Each right row is then looked up and makes its output
rows, in the order of the right rows; after the last of them come the left rows whose key was
never looked up. A run advances by single turns (`Run.turn`), and every turn that delivers no row
lowers a measure, so each pull of the output comes to an end (`Run.pull`).
-/

namespace RecordFlow.Merge

/-- How far a run is: right rows are left, the left rows of the bucket at a position are next, or
all is done. -/
inductive Phase where
  | probing
  | leftOnly (next : Nat)
  | done
  deriving DecidableEq

/-- A merge on its way. -/
structure Run where
  plan : Plan
  /-- Who is told when the output is found to be exhausted. -/
  observer : Option Observer
  /-- The left rows, until they are gathered. -/
  left : Option (Feed Node)
  right : Feed Node
  /-- The left rows by key. -/
  store : Buckets Value
  /-- The keys looked up so far, if each is to be looked up once. -/
  processed : List Key
  /-- Which buckets of left rows were looked up. -/
  matched : List Bool
  /-- Output rows that are ready. -/
  pending : List Value
  phase : Phase
  stats : MergeStats

namespace Run

/-- A merge before its first pull. -/
def start (plan : Plan) (observer : Option Observer) (left right : Feed Node) : Run where
  plan := plan
  observer := observer
  left := some left
  right := right
  store := .empty plan.selectors.left plan.distinct
  processed := []
  matched := []
  pending := []
  phase := .probing
  stats := {}

/-! ## Turns -/

/-- Gather the left rows, unless that was done before, and what pulling them sets free. -/
def gatherLeft (r : Run) : List Emission × Run :=
  match r.left with
  | none => ([], r)
  | some left =>
    let store := r.store.insertAll (left.items.filterMap Node.record?)
    (left.released,
      { r with
        left := none
        store := store
        matched := List.replicate store.size false
        stats := { r.stats with leftRows := store.itemCount } })

/-- Look up a right row: mark the bucket of its key, and make its output rows ready. -/
def probe (r : Run) (row : Value) : Run :=
  let key := r.plan.selectors.right row
  if r.plan.distinct && r.processed.contains key then
    { r with stats := { r.stats with skippedDuplicates := r.stats.skippedDuplicates + 1 } }
  else
    let rows := r.store.cross row r.plan.selectors.right fun l x => r.plan.output l (some x)
    let stats := { r.stats with probes := r.stats.probes + 1 }
    let r :=
      { r with
        processed := if r.plan.distinct then r.processed ++ [key] else r.processed
        pending := rows.filterMap id }
    match r.store.index? key with
    | some i =>
      let pairs := ((r.store.bucketAt? i).getD []).length
      { r with
        matched := r.matched.set i true
        stats := { stats with matchedPairs := stats.matchedPairs + pairs } }
    | none => { r with stats := { stats with rightOnly := stats.rightOnly + 1 } }

/-- Make the output rows of a bucket of left rows ready, if it was never looked up. -/
def offerLeftOnly (r : Run) (i : Nat) : Run :=
  if r.matched[i]?.getD true then r
  else
    let bucket := (r.store.bucketAt? i).getD []
    { r with
      pending := bucket.filterMap fun l => r.plan.output (some l) none
      stats := { r.stats with leftOnly := r.stats.leftOnly + bucket.length } }

/-- What is set free when the output is found to be exhausted. -/
def farewell (r : Run) : List Emission :=
  .log .debug ("merge finished: " ++ r.stats.summary) ::
    Emission.announce r.observer (.mergeFinished r.stats)

/-- What one turn of a run does. -/
inductive Turn where
  | row (v : Value) (next : Run)
  | silent (released : List Emission) (next : Run)
  | over

/-- One turn: deliver a ready row, or take up the next right row, the next bucket of left rows or
the end. -/
def turn (r : Run) : Turn :=
  match r.pending with
  | v :: rest =>
    .row v { r with pending := rest, stats := { r.stats with emitted := r.stats.emitted + 1 } }
  | [] =>
    match r.phase with
    | .probing =>
      let (released, r) := r.gatherLeft
      match r.right with
      | .yield es (.record row) right =>
        .silent (released ++ es) ({ r with right := right }.probe row)
      | .yield es (.group _) right => .silent (released ++ es) { r with right := right }
      | .finish es => .silent (released ++ es) { r with right := .finish [], phase := .leftOnly 0 }
    | .leftOnly i =>
      if i < r.matched.length then .silent [] { r.offerLeftOnly i with phase := .leftOnly (i + 1) }
      else .silent r.farewell { r with phase := .done }
    | .done => .over

/-! ## Progress -/

/-- How many phases are left. -/
def phasesLeft (r : Run) : Nat :=
  match r.phase with
  | .probing => 2
  | .leftOnly _ => 1
  | .done => 0

/-- How many right rows or buckets of left rows are left in the phase. -/
def roundsLeft (r : Run) : Nat :=
  match r.phase with
  | .probing => r.right.length
  | .leftOnly i => r.matched.length - i
  | .done => 0

/-- The measure that every turn lowers, in lexicographic order. -/
def measure (r : Run) : Nat × Nat × Nat := (r.phasesLeft, r.roundsLeft, r.pending.length)

/-- One run is nearer to its end than another. -/
def Nearer (next r : Run) : Prop :=
  Prod.Lex (· < ·) (Prod.Lex (· < ·) (· < ·)) next.measure r.measure

theorem gatherLeft_phase (r : Run) : r.gatherLeft.2.phase = r.phase := by
  unfold gatherLeft; split <;> rfl

theorem gatherLeft_right (r : Run) : r.gatherLeft.2.right = r.right := by
  unfold gatherLeft; split <;> rfl

theorem probe_phase (r : Run) (row : Value) : (r.probe row).phase = r.phase := by
  unfold probe; dsimp only; repeat' split
  all_goals rfl

theorem probe_right (r : Run) (row : Value) : (r.probe row).right = r.right := by
  unfold probe; dsimp only; repeat' split
  all_goals rfl

theorem offerLeftOnly_matched (r : Run) (i : Nat) : (r.offerLeftOnly i).matched = r.matched := by
  unfold offerLeftOnly; split <;> rfl

/-- Delivering a row leaves one row less to deliver. -/
theorem nearer_of_row {r next : Run} {v : Value} (h : r.turn = .row v next) : Nearer next r := by
  unfold turn at h
  split at h
  · next _ rest hp =>
    cases h
    refine Prod.Lex.right _ (Prod.Lex.right _ ?_)
    simp [hp]
  · dsimp only at h
    repeat' split at h
    all_goals cases h

/-- A silent turn takes up a right row or a bucket of left rows, or ends a phase. -/
theorem nearer_of_silent {r next : Run} {es : List Emission} (h : r.turn = .silent es next) :
    Nearer next r := by
  unfold turn at h
  split at h
  · cases h
  · split at h
    · next hphase =>
      have hg := gatherLeft_phase r
      have hr := gatherLeft_right r
      dsimp only at h
      split at h <;> cases h
      · next hright =>
        refine (show Prod.Lex _ _ _ _ from ?_)
        simp only [measure, phasesLeft, roundsLeft, probe_phase, probe_right, hg, hphase]
        rw [← hr, hright]
        exact Prod.Lex.right _ (Prod.Lex.left _ _ (Nat.lt_succ_self _))
      · next hright =>
        refine (show Prod.Lex _ _ _ _ from ?_)
        simp only [measure, phasesLeft, roundsLeft, hg, hphase]
        rw [← hr, hright]
        exact Prod.Lex.right _ (Prod.Lex.left _ _ (Nat.lt_succ_self _))
      · refine (show Prod.Lex _ _ _ _ from ?_)
        simp only [measure, phasesLeft, hphase]
        exact Prod.Lex.left _ _ (by decide)
    · next i hphase =>
      split at h <;> cases h
      · next hi =>
        refine (show Prod.Lex _ _ _ _ from ?_)
        simp only [measure, phasesLeft, roundsLeft, offerLeftOnly_matched, hphase]
        exact Prod.Lex.right _ (Prod.Lex.left _ _ (by omega))
      · refine (show Prod.Lex _ _ _ _ from ?_)
        simp only [measure, phasesLeft, hphase]
        exact Prod.Lex.left _ _ (by decide)
    · cases h

/-! ## The output -/

/-- One pull of the output: turns up to the next row or the end, with all that they set free. -/
def pull (r : Run) : List Emission × Option Value × Run :=
  match _h : r.turn with
  | .row v next => ([], some v, next)
  | .silent es next =>
    let (more, v, last) := next.pull
    (es ++ more, v, last)
  | .over => ([], none, r)
termination_by r.measure
decreasing_by exact nearer_of_silent _h

/-- The output rows, and what pulling them sets free. -/
def output (r : Run) : Feed Node :=
  match _h : r.turn with
  | .row v next => .yield [] (.record v) next.output
  | .silent es next => .delay es next.output
  | .over => .finish []
termination_by r.measure
decreasing_by
  · exact nearer_of_row _h
  · exact nearer_of_silent _h

end Run

/-- Merge right rows into left rows. Nothing is gathered or looked up before the first pull. -/
def feeds (plan : Plan) (observer : Option Observer) (left right : Feed Node) : Feed Node :=
  (Run.start plan observer left right).output

/-- The rows of a merge of two lists of records. -/
def records (left right : List Value) (matcher : Matcher) (options : Options) :
    Except Error (List Value) := do
  let plan ← Plan.make matcher options
  let output := feeds plan none (.ofList (left.map .record)) (.ofList (right.map .record))
  return output.items.filterMap Node.record?

end RecordFlow.Merge
