import Telemetry.Store.Columns
import Telemetry.Store.Table

/-!
The store: a table for each kind of record, a table for the labels of metrics, and insertion.

The labels of the series of a metric are looked up in a table of their own, which refers to the
metric by the identifier of its row. The two tables are changed together: that the labels are those
of the rows that are there, and of no others, is part of the type.

A list of records is inserted as a whole or not at all. Its records are written one after another,
in a transaction, up to the first that is refused; then all tables are as they were before. Only the
identifiers that were taken stay taken, that of the refused record included.
-/

set_option autoImplicit false

namespace Telemetry

open Time (Instant)

/-! ## Labels of stored metrics -/

/-- A label of the series of a stored metric, under the identifier of the row of the metric. -/
structure LabelRow where
  metric : Nat
  name : String
  text : String
  deriving DecidableEq, Repr

/-- The label rows of a stored metric. -/
def LabelRow.ofStored (r : Stored Metric) : List LabelRow :=
  r.record.seriesLabels.entries.map fun e => ⟨r.id, e.1, e.2⟩

theorem LabelRow.mem_ofStored {l : LabelRow} {r : Stored Metric} :
    l ∈ ofStored r ↔ l.metric = r.id ∧ (l.name, l.text) ∈ r.record.seriesLabels.entries := by
  rw [ofStored, List.mem_map]
  constructor
  · rintro ⟨e, he, rfl⟩
    exact ⟨rfl, he⟩
  · rintro ⟨hid, he⟩
    exact ⟨_, he, by rw [← hid]⟩

/-! ## The store -/

/-- A table for each kind of record, and the label rows of the metrics. -/
structure Store where
  metrics : Table Metric := .empty
  labels : List LabelRow := []
  spans : Table Span := .empty
  logs : Table LogRecord := .empty
  labelled : ∀ l, l ∈ labels ↔ ∃ r ∈ metrics.rows, l ∈ LabelRow.ofStored r := by simp [Table.empty]

namespace Store

/-- A store without records. -/
def empty : Store := {}

instance : Inhabited Store := ⟨empty⟩

/-- Inserts a metric that is admitted, with its label rows. -/
def putMetric (now : Instant) (s : Store) (m : Metric) : Store :=
  { s with
    metrics := s.metrics.insert now m
    labels := s.labels ++ LabelRow.ofStored ⟨s.metrics.nextId, now, m⟩
    labelled := fun l => by
      simp only [Table.insert, List.mem_append, s.labelled l, or_and_right, exists_or,
        List.mem_singleton, exists_eq_left] }

/-- Inserts a record that is admitted. -/
def put (now : Instant) (s : Store) : Record → Store
  | .metric m => s.putMetric now m
  | .span x => { s with spans := s.spans.insert now x }
  | .log l => { s with logs := s.logs.insert now l }

/-- Takes an identifier of the kind of a record. -/
def skip (s : Store) : Record → Store
  | .metric _ => { s with metrics := s.metrics.skip }
  | .span _ => { s with spans := s.spans.skip }
  | .log _ => { s with logs := s.logs.skip }

/-- Writes records one after another, up to the first that is refused. -/
def write (now : Instant) : Store → List Record → Store × Except Error Unit
  | s, [] => (s, .ok ())
  | s, r :: rs =>
    match r.admit with
    | .ok stored => write now (s.put now stored) rs
    | .error e => (s.skip r, .error e)

/-- The store as it was before records were written, except that identifiers stay taken. -/
def rollback (s written : Store) : Store :=
  { s with
    metrics := s.metrics.reserve written.metrics.nextId
    spans := s.spans.reserve written.spans.nextId
    logs := s.logs.reserve written.logs.nextId }

/-- Inserts records, all or none.

The instant of the insertion is stored as the clock gives it. A clock that shows a year before 1678
or after 2261, whose nanoseconds since the epoch do not fit a signed 64-bit word, lets every
insertion of a record fail; that check is left out, and so are the failures of the database itself.
-/
def insertAll (now : Instant) (s : Store) (rs : List Record) : Store × Except Error Unit :=
  match s.write now rs with
  | (written, .ok ()) => (written, .ok ())
  | (written, .error e) => (s.rollback written, .error e)

/-- Inserts a record. -/
def insert (now : Instant) (s : Store) (r : Record) : Store × Except Error Unit :=
  s.insertAll now [r]

end Store

end Telemetry
