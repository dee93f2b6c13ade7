import Telemetry.Otlp.Decode
import Telemetry.Store.Basic

/-!
The single path on which records are written.

Submissions wait in a queue. The writer takes the first one, and more as long as what it has taken
holds fewer units than a batch may; then it writes all of it in one insertion. Where that is
refused, it inserts unit by unit, so that a unit which cannot be stored costs no other. Each
submission is answered with the number of its units that were dropped.

The queue here holds whatever has been submitted; senders that wait for a place in it are part of
the description of all parties step by step. A write that dies without an outcome, after which all
of its units are reported as dropped, is left out.
-/

set_option autoImplicit false

namespace Telemetry.Ingest

open Otlp (WriteUnit)
open Time (Instant)

/-- Units that are submitted together. -/
abbrev Submission := List WriteUnit

/-! ## Batches -/

/-- Inserts units one by one, and counts those that are dropped. -/
def writeUnits (now : Instant) (store : Store) : Submission → Store × Nat
  | [] => (store, 0)
  | unit :: units =>
    let (store, outcome) := store.insertAll now unit
    let (store, dropped) := writeUnits now store units
    match outcome with
    | .ok () => (store, dropped)
    | .error _ => (store, dropped + 1)

/-- Inserts the units of submissions one by one, and counts those of each that are dropped. -/
def writeEach (now : Instant) (store : Store) : List Submission → Store × List Nat
  | [] => (store, [])
  | submission :: submissions =>
    let (store, dropped) := writeUnits now store submission
    let (store, counts) := writeEach now store submissions
    (store, dropped :: counts)

/-- Writes submissions, and counts the units of each that are dropped. -/
def writeBatch (now : Instant) (store : Store) (batch : List Submission) : Store × List Nat :=
  match store.insertAll now batch.flatten.flatten with
  | (store, .ok ()) => (store, batch.map fun _ => 0)
  | (store, .error _) => writeEach now store batch

/-! ## The queue -/

/-- Takes submissions from a queue while fewer than `batchSize` units are taken. -/
def takeMore (batchSize taken : Nat) : List Submission → List Submission × List Submission
  | [] => ([], [])
  | submission :: queue =>
    if taken < batchSize then
      let (more, queue) := takeMore batchSize (taken + submission.length) queue
      (submission :: more, queue)
    else ([], submission :: queue)

/-- What is left in a queue is no longer than the queue. -/
theorem length_takeMore_le (batchSize taken : Nat) (queue : List Submission) :
    (takeMore batchSize taken queue).2.length ≤ queue.length := by
  induction queue generalizing taken with
  | nil => simp [takeMore]
  | cons submission queue ih =>
    simp only [takeMore]
    split
    · exact Nat.le_succ_of_le (ih _)
    · exact Nat.le_refl _

/-- Writes all submissions of a queue, batch by batch. -/
def drain (now : Instant) (batchSize : Nat) (store : Store) :
    List Submission → Store × List Nat
  | [] => (store, [])
  | first :: queue =>
    let (store, counts) :=
      writeBatch now store (first :: (takeMore batchSize first.length queue).1)
    let (store, more) := drain now batchSize store (takeMore batchSize first.length queue).2
    (store, counts ++ more)
termination_by queue => queue.length
decreasing_by
  exact Nat.lt_succ_of_le (length_takeMore_le batchSize first.length queue)

/-! ## The writer -/

/-- A writer: how many units a batch takes at least before it is full, and whether the writer has
stopped. -/
structure Writer where
  batchSize : Nat := 1000
  closed : Bool := false
  deriving DecidableEq, Repr

/-- Submits units to a writer that is idle, and counts those that are dropped. One that has stopped
takes none. Where there are no units, it is not asked. -/
def submit (now : Instant) (writer : Writer) (store : Store) (units : Submission) :
    Store × Except Error Nat :=
  if units.isEmpty then (store, .ok 0)
  else if writer.closed then (store, .error (.internal .writerClosed))
  else
    let (store, counts) := drain now writer.batchSize store [units]
    (store, .ok (counts.foldr (· + ·) 0))

end Telemetry.Ingest
