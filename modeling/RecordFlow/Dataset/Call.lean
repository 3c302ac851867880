import RecordFlow.Dataset

/-!
# Calls

The calls that a dataset answers, as data: `Dataset.answer` makes one, and `Dataset.run` makes a
list of them one after another, whether they succeed or not.
-/

namespace RecordFlow

/-- A call on a dataset. -/
inductive Call where
  | map (f : Value → Value)
  | filter (p : Value → Bool)
  | sort (sorting : Sorting)
  | group (keyOf : Value → Value)
  | distinct (keyOf : Value → Value)
  | ungroup (f : Value → Value)
  | reduceKeep (r : Reducer)
  | reduceWith (r : Reducer) (ungroupAfter : Bool)
  | merge (incoming : Dataset) (matcher : Merge.Matcher) (options : Merge.Options)
  | observe (observer : Observer)
  | get
  | inspect (see : Value → Value)
  | getWith (f : Value → Value)

namespace Call

/-- Ungroup without transforming records. -/
def flatten : Call := .ungroup fun v => v

/-- Fold every base group into one record and ungroup. -/
def reduce (r : Reducer) : Call := .reduceWith r true

end Call

/-- An outcome whose result holds no value. -/
def Outcome.valueless {α : Type} (o : Outcome α) : Outcome (Option Value) :=
  ⟨o.dataset, o.released, o.result.map fun _ => none⟩

/-- An outcome whose result is a value. -/
def Outcome.valued (o : Outcome Value) : Outcome (Option Value) :=
  ⟨o.dataset, o.released, o.result.map some⟩

namespace Dataset

/-- The outcome of a call. -/
def answer (d : Dataset) : Call → Outcome (Option Value)
  | .map f => (d.map f).valueless
  | .filter p => (d.filter p).valueless
  | .sort sorting => (d.sort sorting).valueless
  | .group keyOf => (d.group keyOf).valueless
  | .distinct keyOf => (d.distinct keyOf).valueless
  | .ungroup f => (d.ungroup f).valueless
  | .reduceKeep r => (d.reduceKeep r).valueless
  | .reduceWith r ungroupAfter => (d.reduceWith r ungroupAfter).valueless
  | .merge incoming matcher options => (d.merge incoming matcher options).valueless
  | .observe observer => ⟨d.observe observer, [], .ok none⟩
  | .get => d.get.valued
  | .inspect see => (d.inspect see).valued
  | .getWith f => (d.getWith f).valued

/-- The dataset after calls in a row. -/
def run (d : Dataset) (calls : List Call) : Dataset :=
  calls.foldl (fun d call => (d.answer call).dataset) d

end Dataset

end RecordFlow
