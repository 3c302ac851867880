import RecordFlow.Event

/-!
# Observers

An observer is told of events: the console, a recipient known by a name, or several observers in
order. What a call sets free, log messages and notifications, is a list of `Emission`s. A `Tally`
counts the events of one recipient.
-/

namespace RecordFlow

/-- Who is told of events. -/
inductive Observer where
  | console
  | named (label : String)
  | all (members : List Observer)

/-- Where an event ends up. -/
inductive Recipient where
  | console
  | named (label : String)
  deriving DecidableEq

namespace Observer

mutual

/-- Who receives an event, in order. -/
def recipients : Observer → List Recipient
  | .console => [.console]
  | .named label => [.named label]
  | .all members => recipientsOf members

/-- Who receives an event through several observers, in order. -/
def recipientsOf : List Observer → List Recipient
  | [] => []
  | o :: rest => recipients o ++ recipientsOf rest

end

/-- The description of several observers taken together. -/
def describeAll (members : List Observer) : String :=
  Text.describeParts "CompositePipelineObserver" [("observers_len", toString members.length)]

end Observer

/-! ## Emissions -/

/-- How important a log message is. -/
inductive LogLevel where
  | debug | trace
  deriving DecidableEq

/-- The name of a log level. -/
def LogLevel.name : LogLevel → String
  | .debug => "DEBUG"
  | .trace => "TRACE"

/-- What a call sets free: a log message, or an event for an observer. -/
inductive Emission where
  | log (level : LogLevel) (message : String)
  | notify (observer : Observer) (event : Event)

namespace Emission

/-- An event goes to the log and then to the observer, if there is one. -/
def announce (observer : Option Observer) (event : Event) : List Emission :=
  .log .trace event.describe ::
    match observer with
    | some o => [.notify o event]
    | none => []

/-- The event of a notification. -/
def event? : Emission → Option Event
  | .notify _ event => some event
  | .log _ _ => none

end Emission

/-! ## Tallies -/

/-- Running counts of events, modulo `2 ^ 64`. -/
structure Tally where
  operations : UInt64 := 0
  materializations : UInt64 := 0
  merges : UInt64 := 0
  mergeRowsEmitted : UInt64 := 0
  mergeProbes : UInt64 := 0
  deriving DecidableEq

namespace Tally

/-- Count one more event. -/
def record (t : Tally) : Event → Tally
  | .applied _ _ _ => { t with operations := t.operations + 1 }
  | .materialized _ => { t with materializations := t.materializations + 1 }
  | .mergeFinished stats =>
    { t with
      merges := t.merges + 1
      mergeRowsEmitted := t.mergeRowsEmitted + UInt64.ofNat stats.emitted
      mergeProbes := t.mergeProbes + UInt64.ofNat stats.probes }

/-- The counts with their names. -/
def counters (t : Tally) : List (String × UInt64) :=
  [("operations", t.operations), ("materializations", t.materializations), ("merges", t.merges),
    ("merge_rows_emitted", t.mergeRowsEmitted), ("merge_probes", t.mergeProbes)]

/-- The text of a tally. -/
def text (t : Tally) : String :=
  Text.commaSeparated (t.counters.map fun c => c.1 ++ "=" ++ toString c.2.toNat)

end Tally

end RecordFlow
