import RecordFlow.Merge.Selectors
import RecordFlow.Proofs.Key
import RecordFlow.Proofs.Value.Path

/-!
# What selectors compare

Selectors made of pairs of paths let a left and a right row match exactly when the values at the
paths of every pair are the same (`Selectors.ofPairs_match_iff`). The key is the bare value for one
pair and a list for any other number, but both sides have the same number of paths, so values that
are lists or null are not mixed up with lists of values.
-/

namespace RecordFlow.Merge

/-! ## The value behind a key -/

/-- The value that paths compare a record by: the one at a single path, else all of them as an
array. -/
def pathsValue (paths : List String) (record : Value) : Value :=
  match paths with
  | [path] => record.atPath path
  | _ => .array (paths.map fun path => record.atPath path)

theorem pathsKey_eq (paths : List String) (record : Value) :
    Selectors.pathsKey paths record = .ofValue (pathsValue paths record) := by
  have hitems : ∀ paths : List String,
      paths.map (fun path => Key.ofValue (record.atPath path)) =
        Key.ofItems (paths.map fun path => record.atPath path) := by
    intro paths
    induction paths with
    | nil => rfl
    | cons path paths ih => rw [List.map_cons, List.map_cons, Key.ofItems, ih]
  rcases paths with _ | ⟨path, _ | ⟨other, rest⟩⟩
  · rfl
  · rfl
  · exact congrArg Key.list (hitems (path :: other :: rest))

variable {paths : List String} {pairs : List PathPair} {record l r : Value}

theorem valid_pathsValue (h : record.Valid) (paths : List String) :
    (pathsValue paths record).Valid := by
  have harray : ∀ paths : List String,
      (Value.array (paths.map fun path => record.atPath path)).Valid := by
    intro paths
    refine Value.validItems_iff.2 fun v hv => ?_
    obtain ⟨path, -, rfl⟩ := List.mem_map.1 hv
    exact h.atPath path
  match paths with
  | [] => exact harray []
  | [path] => exact h.atPath path
  | path :: other :: rest => exact harray (path :: other :: rest)

/-- The values that two records are compared by are the same when they are so path by path. -/
theorem same_pathsValue_iff :
    (pathsValue (pairs.map PathPair.left) l).Same (pathsValue (pairs.map PathPair.right) r) ↔
      ∀ p ∈ pairs, (l.atPath p.left).Same (r.atPath p.right) := by
  have harray : ∀ pairs : List PathPair,
      (Value.array ((pairs.map PathPair.left).map fun path => l.atPath path)).Same
          (.array ((pairs.map PathPair.right).map fun path => r.atPath path)) ↔
        ∀ p ∈ pairs, (l.atPath p.left).Same (r.atPath p.right) := by
    intro pairs
    rw [Value.same_array_iff, List.map_map, List.map_map, List.forall₂_map_left_iff,
      List.forall₂_map_right_iff, List.forall₂_same]
    rfl
  match pairs with
  | [] => exact harray []
  | [p] =>
    rw [List.forall_mem_singleton]
    exact Iff.rfl
  | p :: q :: rest => exact harray (p :: q :: rest)

/-! ## Matching rows -/

namespace Selectors

/-- **Pairs of paths decide equality at those paths.** A left and a right row have one key exactly
when the values at the paths of every pair are the same, numbers by the rational number that they
are. The value at a path is the one that the path leads to, and null if it leads nowhere. Without
pairs there is only one key. -/
theorem ofPairs_match_iff (pairs : List PathPair) (hl : l.Valid) (hr : r.Valid) :
    (((ofPairs pairs).left l == (ofPairs pairs).right r) = true ↔
        ∀ p ∈ pairs, (l.atPath p.left).Same (r.atPath p.right)) ∧
      (∀ (record : Value) (path : String),
        (∀ v, Value.Leads (Path.segments path) record v → record.atPath path = v) ∧
        ((∀ v, ¬ Value.Leads (Path.segments path) record v) → record.atPath path = .null)) ∧
      (pairs = [] → ∀ v w, (ofPairs pairs).left v = (ofPairs pairs).right w ∧
        (ofPairs pairs).left v = (ofPairs pairs).left w ∧
        (ofPairs pairs).right v = (ofPairs pairs).right w) := by
  refine ⟨?_, fun record path => ?_, ?_⟩
  · show (pathsKey (pairs.map PathPair.left) l == pathsKey (pairs.map PathPair.right) r) = true ↔ _
    rw [beq_iff_eq, pathsKey_eq, pathsKey_eq]
    refine (Key.ofValue_eq_iff _ _ ?_ ?_).trans same_pathsValue_iff
    · exact valid_pathsValue hl _
    · exact valid_pathsValue hr _
  · exact ⟨fun v => Value.atPath_of_leads, Value.atPath_of_leads_nowhere⟩
  · rintro rfl v w
    exact ⟨rfl, rfl, rfl⟩

/-- An integer matches the float of its value, and a missing element a missing field, but an array
does not match its only element. -/
theorem ofPairs_match_iff_of_missing_values :
    let l := Value.object [("id", .number (.int 1 (by decide))), ("tags", .array [.string "x"])]
    let r := Value.object
      [("order", .number (.float ⟨0x3ff0000000000000, by decide⟩)), ("tag", .string "x")]
    let pairs : List PathPair := [⟨"id", "order"⟩, ⟨"tags.0", "tag"⟩, ⟨"tags.1", "missing"⟩]
    l.Valid ∧ r.Valid ∧ (∀ p ∈ pairs, (l.atPath p.left).Same (r.atPath p.right)) ∧
      ¬ ∀ p ∈ [(⟨"tags", "tag"⟩ : PathPair)], (l.atPath p.left).Same (r.atPath p.right) := by
  intro l r pairs
  have hl : l.Valid := by
    refine ⟨?_, trivial, ⟨trivial, trivial⟩, trivial⟩
    show ["id", "tags"].Pairwise (· < ·)
    decide
  have hr : r.Valid := by
    refine ⟨?_, trivial, trivial, trivial⟩
    show ["order", "tag"].Pairwise (· < ·)
    decide
  refine ⟨hl, hr, (ofPairs_match_iff pairs hl hr).1.1 (by decide +kernel), fun hsame => ?_⟩
  have hmatch := (ofPairs_match_iff _ hl hr).1.2 hsame
  revert hmatch
  decide +kernel

end Selectors

end RecordFlow.Merge
