import Telemetry.Page
import Telemetry.Query.Evaluation
import Telemetry.Store.Basic

/-!
What can be read from a store: listings, counts, names, labels, and the rows of a metric.
-/

set_option autoImplicit false

namespace Telemetry

open Time (Instant)

namespace Store

/-! ## Listings -/

/-- The rows of a kind, in the order of their insertion. -/
def rows (s : Store) : RecordKind → List (Stored Record)
  | .metrics => s.metrics.rows.map (·.map .metric)
  | .traces => s.spans.rows.map (·.map .span)
  | .logs => s.logs.rows.map (·.map .log)

/-- Whether a row is listed before another one: it is later, or as late and inserted after it. -/
def listedBefore (a b : Stored Record) : Bool :=
  let m := a.record.time.toNanos
  let n := b.record.time.toNanos
  decide (n < m ∨ (n = m ∧ b.id ≤ a.id))

/-- The rows of a kind, the latest first. -/
def newestFirst (s : Store) (kind : RecordKind) : List (Stored Record) :=
  (s.rows kind).mergeSort listedBefore

/-- The rows that a page shows. -/
def list (s : Store) (kind : RecordKind) (page : Page) : List (Stored Record) :=
  page.slice (s.newestFirst kind)

/-- The number of rows of a kind. -/
def total (s : Store) (kind : RecordKind) : Nat := (s.rows kind).length

/-! ## Counts and names -/

/-- The numbers of rows of each kind. -/
structure Counts where
  metrics : Nat
  traces : Nat
  logs : Nat
  deriving DecidableEq, Repr

/-- The numbers of rows of each kind. -/
def counts (s : Store) : Counts := ⟨s.metrics.size, s.spans.size, s.logs.size⟩

/-- The different ones among some names, in ascending order. -/
def distinct (names : List String) : List String :=
  (Dictionary.ofList (names.map fun n => (n, ()))).keys

/-- The names of the metrics. -/
def metricNames (s : Store) : List String := distinct (s.metrics.records.map (·.name))

/-- The names of the services, except the empty one. -/
def serviceNames (s : Store) : List String :=
  let names := s.metrics.records.map (·.service) ++ s.spans.records.map (·.service) ++
    s.logs.records.map (·.service)
  distinct (names.filter fun n => !n.isEmpty)

/-! ## Labels -/

/-- The labels of the rows of a metric, one by one: the label rows that refer to one of them. -/
def metricLabels (s : Store) (metric : String) : List (String × String) :=
  (s.labels.filter fun l => s.metrics.rows.any fun r =>
    r.id == l.metric && r.record.name == metric).map fun l => (l.name, l.text)

/-- The names of the labels of a metric, each with its different values in ascending order. -/
def labelValues (s : Store) (metric : String) : Dictionary (List String) :=
  (Dictionary.collect (·.1) (s.metricLabels metric)).mapValues fun (first, others) =>
    distinct ((first :: others).map (·.2))

/-! ## Rows of a metric -/

/-- A value of a metric as a row. The service is added to the labels of the value. -/
def rowOf (m : Metric) : Row := ⟨m.name, m.time, m.value, m.labels.insertNew "service" m.service⟩

/-- Whether a row answers a request for what lies between two numbers of nanoseconds: its metric and
its time are asked for, and each label that is asked for is in a label row of it. -/
def answers (s : Store) (f : Query.Fetch) (start stop : Int) (r : Stored Metric) : Bool :=
  let t := r.record.time.toNanos
  r.record.name == f.metric && decide (start ≤ t ∧ t ≤ stop) &&
    f.labels.entries.all fun e => s.labels.contains ⟨r.id, e.1, e.2⟩

/-- Whether a row is fetched before another one: it is earlier, or as early and has the lower
identifier. -/
def fetchedBefore (a b : Stored Metric) : Bool :=
  let m := a.record.time.toNanos
  let n := b.record.time.toNanos
  decide (m < n ∨ (m = n ∧ a.id ≤ b.id))

/-- The rows that are asked for, by ascending time and then by identifier. Nothing is read for a
query that is cancelled. -/
def fetch (s : Store) (cancelled : Bool) (f : Query.Fetch) : Except Error (List Row) := do
  if cancelled then throw .cancelled
  let start ← f.start.toWord
  let stop ← f.stop.toWord
  let selected := s.metrics.rows.filter (s.answers f start stop)
  return (selected.mergeSort fetchedBefore).map fun r => rowOf r.record

/-- The store as the source of a query that is cancelled or not. -/
def source (s : Store) (cancelled : Bool) : Query.Source Id where
  fetch f := s.fetch cancelled f
  cancelled := cancelled

/-- Evaluates the text of a query over a window of the store. -/
def execute (s : Store) (cancelled : Bool) (text : String) (window : Query.Window) :
    Except Error QueryResult :=
  (Query.execute (s.source cancelled) text window : Id (Except Error QueryResult))

end Store

end Telemetry
