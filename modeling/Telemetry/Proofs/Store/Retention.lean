import Telemetry.Config.Basic
import Telemetry.Proofs.Fallible
import Telemetry.Proofs.Time.Instant
import Telemetry.Store.Read
import Telemetry.Store.Retention

/-!
How far a configured retention can be enforced.

A sweep goes back from the present by the retention and removes what is older. Every retention that
a configuration can have is short enough to be converted, but the instant it leads to has to be one
of the calendar, and its nanoseconds have to fit a word. The three outcomes are told apart by the
cutoff alone (`purgeOlderThan_retention`). A configuration is checked for a retention of no days,
and not for one of too many, so some that are accepted cannot be enforced at all.
-/

set_option autoImplicit false

namespace Telemetry

open Time (Instant Duration)

/-! ## The cutoff

A retention is a number of days that fits 32 bits. That is short enough for a signed length of
time, and long enough for a cutoff that leaves the words, and even the calendar. -/

/-- The nanoseconds since the epoch before which records are to be removed at an instant. -/
def Config.cutoff (c : Config) (now : Instant) : Int :=
  now.toNanos - (c.retentionDays.toNat * 86400 * Time.nanosPerSecond : Nat)

/-- The cutoff is the retention before the present. -/
theorem Config.cutoff_eq (c : Config) (now : Instant) :
    c.cutoff now = now.toNanos - c.retention.nanos := by
  rw [cutoff, retention, Duration.ofSeconds, Time.nanosPerSecond]

/-- Every retention can be converted: its days fit 32 bits. -/
theorem Config.retention_le_limit (c : Config) : c.retention.nanos ≤ Duration.limit := by
  have hdays : c.retentionDays.toNat < 4294967296 := c.retentionDays.toNat_lt
  change c.retentionDays.toNat * 86400 * 1000000000 ≤ 9223372036854775807 * 1000000
  omega

/-- The cutoff lies before the beginning of the calendar exactly if the retention reaches there. -/
theorem Config.overreaches_iff (c : Config) (now : Instant) :
    Time.Overreaches now c.retention ↔ c.cutoff now < Instant.calendarStart :=
  ⟨fun h => c.cutoff_eq now ▸ h.2, fun h => ⟨c.retention_le_limit, c.cutoff_eq now ▸ h⟩⟩

namespace Store

/-! ## Removal -/

/-- What is kept of a kind: the rows that are not older. -/
theorem rows_keepFrom (s : Store) (cutoff : Int) (kind : RecordKind) :
    (s.keepFrom cutoff).rows kind =
      (s.rows kind).filter fun r => decide (cutoff ≤ r.record.time.toNanos) := by
  cases kind <;>
  · simp only [rows, keepFrom, Table.filter, List.filter_map, Function.comp_def]
    rfl

/-- A removal succeeds if the cutoff fits a word, and reports what has expired. -/
theorem purgeBefore_eq_ok (s : Store) {cutoff : Instant}
    (h : Text.Integer.fitsSigned64 cutoff.toNanos = true) :
    s.purgeBefore cutoff = .ok (s.keepFrom cutoff.toNanos, s.expired cutoff.toNanos) := by
  rw [purgeBefore, Instant.toWord_eq_ok h]
  rfl

/-- A cutoff that does not fit a word is refused, and nothing is removed. -/
theorem purgeBefore_eq_error (s : Store) {cutoff : Instant}
    (h : Text.Integer.fitsSigned64 cutoff.toNanos = false) :
    s.purgeBefore cutoff = .error (.invalidArgument (.unrepresentable cutoff)) := by
  rw [purgeBefore, Instant.toWord_eq_error h]
  rfl

/-- If the retention leads back to an instant, what is older is removed. -/
theorem purgeOlderThan_of_back {s : Store} {now cutoff : Instant} {d : Duration}
    (h : now.back d = .ok cutoff) : s.purgeOlderThan now d = s.purgeBefore cutoff := by
  have hbind : s.purgeOlderThan now d = now.back d >>= s.purgeBefore := by
    rw [purgeOlderThan, Instant.back, bind_assoc]
  rw [hbind, h]
  rfl

/-- If it does not, nothing is removed, and the error is that of going back. -/
theorem purgeOlderThan_of_back_error {s : Store} {now : Instant} {d : Duration} {e : Error}
    (h : now.back d = .error e) : s.purgeOlderThan now d = .error e := by
  have hbind : s.purgeOlderThan now d = now.back d >>= s.purgeBefore := by
    rw [purgeOlderThan, Instant.back, bind_assoc]
  rw [hbind, h]
  rfl

/-! ## Sweeps

The cutoff is computed first, and it may fail in two ways before a row is looked at. -/

/-- **A retention is enforced as far as its cutoff can be stored.** At any instant whose nanoseconds
fit a word, such as all of the years 1678 to 2261, a sweep keeps exactly the rows that are not
older than the cutoff if that fits a word; it is refused as an argument if the cutoff does not, but
lies in the calendar; and otherwise the date arithmetic itself has no result. -/
theorem purgeOlderThan_retention (s : Store) (c : Config) {now : Instant}
    (hnow : Text.Integer.fitsSigned64 now.toNanos = true) :
    (-0x8000000000000000 ≤ c.cutoff now →
      ∃ kept purged, s.purgeOlderThan now c.retention = .ok (kept, purged) ∧
        ∀ kind, kept.rows kind =
          (s.rows kind).filter fun r => decide (c.cutoff now ≤ r.record.time.toNanos)) ∧
    (Instant.calendarStart ≤ c.cutoff now → c.cutoff now < -0x8000000000000000 →
      ∃ t, t.toNanos = c.cutoff now ∧
        s.purgeOlderThan now c.retention = .error (.invalidArgument (.unrepresentable t))) ∧
    (c.cutoff now < Instant.calendarStart →
      s.purgeOlderThan now c.retention = .error .beyondRange) := by
  have hcalendar := Instant.inCalendar_of_fits hnow
  have hword : -0x8000000000000000 ≤ c.cutoff now →
      Text.Integer.fitsSigned64 (c.cutoff now) = true := by
    rw [Text.Integer.fitsSigned64, decide_eq_true_eq] at hnow ⊢
    rw [c.cutoff_eq]
    omega
  have hcases := Instant.back_cases hcalendar c.retention
  rw [c.overreaches_iff, ← c.cutoff_eq] at hcases
  -- a retention in days is never too long for the subtraction, so the cutoff is before the
  -- calendar or in it
  rcases hcases with ⟨hlong, -⟩ | ⟨hbefore, hback⟩ | ⟨hafter, cutoff, hback, -, hcutoff⟩
  · exact absurd c.retention_le_limit (Nat.not_le.2 hlong)
  · refine ⟨fun h => ?_, fun h => absurd hbefore (Int.not_lt.2 h), fun _ => ?_⟩
    · have hstart : Instant.calendarStart ≤ -0x8000000000000000 := by decide
      omega
    · exact purgeOlderThan_of_back_error hback
  · rw [purgeOlderThan_of_back hback]
    refine ⟨fun h => ?_, fun _ h => ⟨cutoff, hcutoff, ?_⟩, fun h => absurd h hafter⟩
    · exact ⟨_, _, s.purgeBefore_eq_ok (hcutoff ▸ hword h), hcutoff ▸ s.rows_keepFrom _⟩
    · refine s.purgeBefore_eq_error (decide_eq_false ?_)
      omega

/-- A log record of a second. -/
def logAt (second : Int) : LogRecord where
  time := .ofNanos (second * Time.nanosPerSecond)
  service := "api"
  level := "INFO"
  message := "ready"
  attributes := Dictionary.empty
  traceId := none
  spanId := none

/-- A store with two log records, thirty days apart. -/
def twoLogs : Store :=
  (empty.put .epoch (.log (logAt 0))).put .epoch (.log (logAt 2592000))

/-- Three retentions: thirty days, two hundred thousand, and the longest one. -/
theorem twoLogs_retention :
    Text.Integer.fitsSigned64 (logAt 2592001).time.toNanos = true ∧
    (∃ kept purged, twoLogs.purgeOlderThan (logAt 2592001).time ({} : Config).retention =
        .ok (kept, purged) ∧
      (kept.rows .logs).map (·.record) = [.log (logAt 2592000)]) ∧
    (∃ t, t.toNanos = ({ retentionDays := 200000 } : Config).cutoff (logAt 2592001).time ∧
      twoLogs.purgeOlderThan (logAt 2592001).time ({ retentionDays := 200000 } : Config).retention =
        .error (.invalidArgument (.unrepresentable t))) ∧
    twoLogs.purgeOlderThan (logAt 2592001).time
      ({ retentionDays := 4294967295 } : Config).retention = .error .beyondRange := by
  have hnow : Text.Integer.fitsSigned64 (logAt 2592001).time.toNanos = true := by decide
  have hlong := (purgeOlderThan_retention twoLogs { retentionDays := 200000 } hnow).2.1
    (by decide) (by decide)
  have hlongest := (purgeOlderThan_retention twoLogs { retentionDays := 4294967295 } hnow).2.2
    (by decide)
  obtain ⟨kept, purged, hok, hrows⟩ := (purgeOlderThan_retention twoLogs {} hnow).1 (by decide)
  refine ⟨hnow, ⟨kept, purged, hok, ?_⟩, hlong, hlongest⟩
  rw [hrows]
  rfl

/-- So not every configuration that is accepted can be enforced: with a retention of 4294967295 days
the sweeps have no result. -/
theorem accepted_retention_not_enforced :
    ¬ ∀ (c : Config) (now : Instant) (s : Store), c.validate = .ok () →
      1970 ≤ now.date.year → now.date.year ≤ 2200 →
      ∃ kept purged, s.purgeOlderThan now c.retention = .ok (kept, purged) ∧
        ∀ kind, kept.rows kind =
          (s.rows kind).filter fun r => decide (c.cutoff now ≤ r.record.time.toNanos) := by
  intro h
  obtain ⟨kept, purged, hok, -⟩ :=
    h { retentionDays := 4294967295 } .epoch empty rfl (by decide) (by decide)
  have hbefore : ({ retentionDays := 4294967295 : Config }).cutoff .epoch <
      Instant.calendarStart := by
    decide
  have herror := Instant.back_eq_beyondRange_iff (t := .epoch) rfl _ |>.2
    (Config.overreaches_iff _ _ |>.2 hbefore)
  rw [purgeOlderThan_of_back_error herror] at hok
  cases hok

end Store

end Telemetry
