import Telemetry.Proofs.Json.Document
import Telemetry.Proofs.Time.Instant
import Telemetry.Store.Columns

/-!
What is read from the columns of a record is the record.

Names, values and identifiers are written as they are. The three columns that are encoded are read
back exactly: the nanoseconds of an instant that fits a word, the name of a status, and the JSON
text of labels, whatever their names and values. So a record is admitted exactly if its time fits a
word and the constraints of its table hold, and it is stored as it is, except that a leap second is
taken for the second after it (`Record.admit_eq_ok_iff`).
-/

set_option autoImplicit false

namespace Telemetry

open Fallible
open Time (Instant)
open Text.Integer (fitsSigned64)

/-! ## Encoded columns -/

/-- Labels come back from the document that they are stored as. -/
theorem Labels.ofDocument_document (labels : Labels) : ofDocument labels.document = .ok labels := by
  have hall : labels.entries.mapM (fun e => (Except.ok (e.1, e.2) : Except Json.Fault _)) =
      .ok labels.entries :=
    mapM_eq_ok_iff.2 (List.forall₂_same.2 fun _ _ => rfl)
  have hread : (Json.readText labels.document >>= Json.Decoder.labelSet Json.maxLevels) =
      .ok labels := by
    rw [document, Json.readText_toJson]
    show Json.Decoder.labelSet Json.maxLevels labels.toJson = _
    rw [Labels.toJson, Json.Decoder.labelSet, Json.maxLevels, Json.Decoder.dictionary,
      List.mapM_map]
    show (labels.entries.mapM (fun e => (Except.ok (e.1, e.2) : Except Json.Fault _)) >>= _) = _
    rw [hall]
    exact congrArg Except.ok labels.ofList_entries
  rw [ofDocument, hread]

/-- A status comes back from its name. -/
theorem SpanStatus.ofColumn_name (s : SpanStatus) : ofColumn s.name = .ok s := by
  cases s <;> rfl

/-! ## Rows -/

/-- What is written of a record is written at all if its time fits a word. -/
theorem Time.Instant.toWord_cases (t : Instant) :
    (fitsSigned64 t.toNanos = true ∧ t.toWord = .ok t.toNanos) ∨
      (¬ fitsSigned64 t.toNanos = true ∧ ∃ e, t.toWord = .error e) := by
  by_cases h : fitsSigned64 t.toNanos = true
  · exact .inl ⟨h, toWord_eq_ok h⟩
  · exact .inr ⟨h, _, toWord_eq_error (Bool.eq_false_iff.2 h)⟩

/-- A value of a metric is admitted exactly if its time fits a word of nanoseconds. -/
theorem Metric.admit_eq_ok_iff {m stored : Metric} : m.admit = .ok stored ↔
    fitsSigned64 m.time.toNanos = true ∧ { m with time := .ofNanos m.time.toNanos } = stored := by
  unfold Metric.admit
  rw [columns]
  obtain ⟨hfits, hword⟩ | ⟨hfits, e, hword⟩ := m.time.toWord_cases
  · rw [hword, and_iff_right hfits]
    show (Labels.ofDocument m.labels.document >>= _) = _ ↔ _
    rw [Labels.ofDocument_document]
    exact ⟨Except.ok.inj, congrArg _⟩
  · rw [hword]
    exact iff_of_false nofun fun h => hfits h.1

/-- A log record is admitted exactly if its time fits a word of nanoseconds. -/
theorem LogRecord.admit_eq_ok_iff {l stored : LogRecord} : l.admit = .ok stored ↔
    fitsSigned64 l.time.toNanos = true ∧ { l with time := .ofNanos l.time.toNanos } = stored := by
  unfold LogRecord.admit
  rw [columns]
  obtain ⟨hfits, hword⟩ | ⟨hfits, e, hword⟩ := l.time.toWord_cases
  · rw [hword, and_iff_right hfits]
    show (Labels.ofDocument l.attributes.document >>= _) = _ ↔ _
    rw [Labels.ofDocument_document]
    exact ⟨Except.ok.inj, congrArg _⟩
  · rw [hword]
    exact iff_of_false nofun fun h => hfits h.1

/-- The checks of the table of spans pass exactly if the duration is not negative and the parent
is not an empty text. -/
theorem SpanColumns.check_cases (c : SpanColumns) :
    ((0 ≤ c.duration ∧ c.parentSpanId ≠ some "") ∧ c.check = .ok ()) ∨
      (¬ (0 ≤ c.duration ∧ c.parentSpanId ≠ some "") ∧ ∃ e, c.check = .error e) := by
  rw [check]
  by_cases hduration : c.duration < 0
  · rw [if_pos hduration]
    exact .inr ⟨fun h => Int.not_le.2 hduration h.1, _, rfl⟩
  · rw [if_neg hduration]
    by_cases hparent : c.parentSpanId = some ""
    · rw [if_pos hparent]
      exact .inr ⟨fun h => h.2 hparent, _, rfl⟩
    · rw [if_neg hparent]
      exact .inl ⟨⟨Int.not_lt.1 hduration, hparent⟩, rfl⟩

/-- A span is admitted exactly if its start fits a word of nanoseconds and the checks of its table
pass. -/
theorem Span.admit_eq_ok_iff {s stored : Span} : s.admit = .ok stored ↔
    fitsSigned64 s.start.toNanos = true ∧ (0 ≤ s.duration ∧ s.parentSpanId ≠ some "") ∧
      { s with start := .ofNanos s.start.toNanos } = stored := by
  unfold Span.admit
  rw [columns]
  obtain ⟨hfits, hword⟩ | ⟨hfits, e, hword⟩ := s.start.toWord_cases
  · rw [hword, and_iff_right hfits]
    show (SpanColumns.check _ >>= fun _ => SpanColumns.read _) = _ ↔ _
    obtain ⟨hmeets, hcheck⟩ | ⟨hmeets, e, hcheck⟩ := SpanColumns.check_cases _
    · rw [hcheck, and_iff_right hmeets]
      show (SpanStatus.ofColumn s.status.name >>= fun _ =>
        Labels.ofDocument s.attributes.document >>= _) = _ ↔ _
      rw [SpanStatus.ofColumn_name, Labels.ofDocument_document]
      exact ⟨Except.ok.inj, congrArg _⟩
    · rw [hcheck]
      exact iff_of_false nofun fun h => hmeets h.1
  · rw [hword]
    exact iff_of_false nofun fun h => hfits h.1

/-! ## Records -/

namespace Record

/-- Whether the constraints of its table hold of a record. -/
def MeetsConstraints : Record → Prop
  | .span s => 0 ≤ s.duration ∧ s.parentSpanId ≠ some ""
  | _ => True

instance : DecidablePred MeetsConstraints
  | .metric _ | .log _ => .isTrue trivial
  | .span s => inferInstanceAs (Decidable (0 ≤ s.duration ∧ s.parentSpanId ≠ some ""))

/-- A record with its time as it is stored. -/
def atStoredTime : Record → Record
  | .metric m => .metric { m with time := .ofNanos m.time.toNanos }
  | .span s => .span { s with start := .ofNanos s.start.toNanos }
  | .log l => .log { l with time := .ofNanos l.time.toNanos }

/-- A record is admitted exactly if its time fits a word and the constraints of its table hold. Then
it is stored as it is, but for a leap second. -/
theorem admit_eq_ok_iff {r stored : Record} : r.admit = .ok stored ↔
    fitsSigned64 r.time.toNanos = true ∧ r.MeetsConstraints ∧ r.atStoredTime = stored := by
  have hmap {α : Type} {x : Except Error α} {f : α → Record} :
      x.map f = .ok stored ↔ ∃ a, x = .ok a ∧ f a = stored := by
    cases x <;> simp [Except.map]
  cases r with
  | metric m =>
    unfold Record.admit
    simp only [hmap, Metric.admit_eq_ok_iff, and_assoc, exists_and_left, exists_eq_left']
    exact and_congr_right fun _ => (iff_of_eq (true_and _)).symm
  | span s =>
    unfold Record.admit
    simp only [hmap, Span.admit_eq_ok_iff, and_assoc, exists_and_left, exists_eq_left']
    exact and_congr_right fun _ => and_assoc.symm
  | log l =>
    unfold Record.admit
    simp only [hmap, LogRecord.admit_eq_ok_iff, and_assoc, exists_and_left, exists_eq_left']
    exact and_congr_right fun _ => (iff_of_eq (true_and _)).symm

/-- The stored time of a record is the one counted in nanoseconds. -/
theorem time_atStoredTime (r : Record) : r.atStoredTime.time = .ofNanos r.time.toNanos := by
  cases r <;> rfl

/-- Only a leap second is stored as another time, the one after it. -/
theorem atStoredTime_of_not_leap {r : Record} (h : r.time.isLeap = false) : r.atStoredTime = r := by
  have htime := Instant.ofNanos_toNanos h
  cases r with
  | metric m => exact congrArg (fun t => metric { m with time := t }) htime
  | span s => exact congrArg (fun t => span { s with start := t }) htime
  | log l => exact congrArg (fun t => log { l with time := t }) htime

end Record

end Telemetry
