import Telemetry.Store.Basic
import Telemetry.Time.Bound

/-!
Retention: the removal of records that are older than an instant.

Each removal is a step of its own on the store. The loop that asks for one at regular intervals, and
writes what came of it to the log of the program, is left out.
-/

set_option autoImplicit false

namespace Telemetry.Store

open Time (Instant Duration)

/-- How many records of each kind were removed. -/
structure Purged where
  metrics : Nat := 0
  spans : Nat := 0
  logs : Nat := 0
  deriving DecidableEq, Repr

/-- The identifiers of the metrics that are older than a number of nanoseconds since the epoch. -/
def expiredMetrics (s : Store) (cutoff : Int) : List Nat :=
  (s.metrics.rows.filter fun r => decide (r.record.time.toNanos < cutoff)).map (·.id)

/-- A row has expired if its identifier is that of one that has. -/
theorem mem_expiredMetrics {s : Store} {cutoff : Int} {r : Stored Metric}
    (hr : r ∈ s.metrics.rows) :
    r.id ∈ s.expiredMetrics cutoff ↔ r.record.time.toNanos < cutoff := by
  simp only [expiredMetrics, List.mem_map, List.mem_filter, decide_eq_true_eq]
  constructor
  · rintro ⟨r', ⟨hr', hlt⟩, hid⟩
    exact s.metrics.eq_of_id_eq hr' hr hid ▸ hlt
  · intro hlt
    exact ⟨r, ⟨hr, hlt⟩, rfl⟩

/-- Keeps the records that are not older than a number of nanoseconds since the epoch. The label
rows of the metrics that have expired go first. -/
def keepFrom (s : Store) (cutoff : Int) : Store where
  labels := s.labels.filter fun l => !(s.expiredMetrics cutoff).contains l.metric
  metrics := s.metrics.filter fun m => decide (cutoff ≤ m.time.toNanos)
  spans := s.spans.filter fun x => decide (cutoff ≤ x.start.toNanos)
  logs := s.logs.filter fun l => decide (cutoff ≤ l.time.toNanos)
  labelled := fun l => by
    simp only [Table.filter, List.mem_filter, s.labelled l, Bool.not_eq_true', List.contains_eq_mem,
      decide_eq_false_iff_not, decide_eq_true_eq]
    constructor
    · rintro ⟨⟨r, hr, hl⟩, hkept⟩
      rw [(LabelRow.mem_ofStored.1 hl).1, mem_expiredMetrics hr] at hkept
      exact ⟨r, ⟨hr, Int.not_lt.1 hkept⟩, hl⟩
    · rintro ⟨r, ⟨hr, hkept⟩, hl⟩
      rw [(LabelRow.mem_ofStored.1 hl).1, mem_expiredMetrics hr]
      exact ⟨⟨r, hr, hl⟩, Int.not_lt.2 hkept⟩

/-- How many rows of each kind are older than a number of nanoseconds since the epoch: those that a
removal takes. -/
def expired (s : Store) (cutoff : Int) : Purged where
  metrics := s.metrics.count fun m => decide (m.time.toNanos < cutoff)
  spans := s.spans.count fun x => decide (x.start.toNanos < cutoff)
  logs := s.logs.count fun l => decide (l.time.toNanos < cutoff)

/-- Removes the records that are older than an instant. -/
def purgeBefore (s : Store) (cutoff : Instant) : Except Error (Store × Purged) := do
  let cutoff ← cutoff.toWord
  return (s.keepFrom cutoff, s.expired cutoff)

/-- Removes the records that are older than a length of time. -/
def purgeOlderThan (s : Store) (now : Instant) (retention : Duration) :
    Except Error (Store × Purged) := do
  s.purgeBefore (← now.minus (← retention.toSigned))

end Telemetry.Store
