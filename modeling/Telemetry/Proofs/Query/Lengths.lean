import Telemetry.Config.Layer
import Telemetry.Proofs.Query.RelativeBounds
import Telemetry.Proofs.Time.Padding

/-!
One length of time, wherever it is written.

A length of time can be the time range of a request, its start, or a setting. A time range has a
reader of its own for the plain units, which agrees with the general one (`ReadsSums.agrees`); a
start goes to the general reader once it is trimmed, and a setting as it is. They mean the same
length, since blanks around one make no difference (`Duration.read_eq_ok_iff_trim`): only a zero
without a unit is no setting with blanks around it.
-/

set_option autoImplicit false

namespace Telemetry.Query

open Text (trim)
open Text.Integer (IsDecimal maxUnsigned64)
open Time (Duration Instant)

/-- A setting is a length of time just if the general reader takes its text. -/
theorem layerDuration_eq_ok_iff {source field text : String} {d : Duration} :
    Layer.duration source field text = .ok d ↔ Duration.read text.toList = .ok d := by
  rw [Layer.duration]
  cases Duration.read text.toList with
  | ok d => simp
  | error f => cases f <;> simp

/-- What a text of a length of time means in its three places. -/
structure SameLength (text : String) (d : Duration) : Prop where
  /-- As a time range it goes back from the instant of the request. -/
  timeRange (now : Instant) (clock : Clock) :
    ({ timeRange := some text } : Bounds).resolve now clock =
      (do Window.between (← now.back d) now)
  /-- As a start it goes back by the same length from what the clock shows then. -/
  start (now : Instant) (clock : Clock) :
    ({ start := some text } : Bounds).resolve now clock =
      (do Window.between (← clock.atStart.back d) now)
  /-- As a setting it is no other length, and it is one, except for a zero that has blanks around it
  but no unit. -/
  setting_iff (source field : String) (d' : Duration) :
    Layer.duration source field text = .ok d' ↔
      d' = d ∧ (trim text.toList = ['0'] → text.toList = ['0'])

/-- A text that is read as a length of time means this length in all three places. -/
theorem sameLength_of_duration {text : String} {d : Duration}
    (h : duration text.toList = .ok d) : SameLength text d := by
  have hread : Relative text d := duration_eq_ok_iff.1 h
  have hsame (d' : Duration) : Duration.read (trim text.toList) = .ok d' ↔ d' = d := by
    rw [hread, Except.ok.injEq]
    exact eq_comm
  exact {
    timeRange := fun _ _ => resolve_timeRange hread
    start := fun _ _ => resolve_start hread
    setting_iff := fun _ _ d' => by
      rw [layerDuration_eq_ok_iff, Duration.read_eq_ok_iff_trim, hsame d'] }

/-- **Durations are what the general reader makes of the trimmed text**, up to the greatest number
of seconds, and so are the lengths of time in all places. This takes no more of a general reader
than that it adds up plain terms. -/
theorem durations_agree :
    (∀ general, ReadsSums general → ∀ text : List Char,
      Agrees (durationBy general text) (general (trim text))) ∧
    (ReadsSums Duration.read ∧ ∀ text : List Char, durationBy Duration.read text = duration text ∧
      Agrees (duration text) (Duration.read (trim text))) ∧
    (∀ (text ds : List Char) (n : Nat) (u : Char) (unit : Duration.TimeUnit),
      trim text = ds ++ [u] → IsDecimal ds n → (u, unit) ∈ Duration.plainUnits →
      duration text =
        if maxUnsigned64 < n * unit.seconds then fault .durationTooLong text
        else .ok (.ofSeconds (n * unit.seconds))) ∧
    (∀ (text : String) (d : Duration), duration text.toList = .ok d → SameLength text d) ∧
    ∀ (source field text : String) (d : Duration),
      Layer.duration source field text = .ok d → duration text.toList = .ok d := by
  refine ⟨fun _ hgeneral => hgeneral.agrees,
    ⟨readsSums_read, fun text => ⟨congrFun durationBy_read text, readsSums_read.agrees text⟩⟩,
    fun _ _ _ _ _ => durationBy_plain, fun _ _ => sameLength_of_duration, ?_⟩
  intro source field text d h
  have hread := Duration.read_eq_ok_iff_trim.1 (layerDuration_eq_ok_iff.1 h)
  exact duration_eq_ok_iff.2 hread.1

/-- The greatest number of minutes, written with zeros before it, is a duration, and one minute more
is none. An hour and a half with blanks around it is a time range, a start and a setting. -/
theorem durations_agree_of_minutes :
    Agrees (durationBy Duration.read " 1h 30m ".toList) (Duration.read "1h 30m".toList) ∧
    IsDecimal "00307445734561825860".toList 307445734561825860 ∧
    duration "00307445734561825860m".toList = .ok (.ofSeconds 18446744073709551600) ∧
    duration "307445734561825861m".toList =
      fault .durationTooLong "307445734561825861m".toList ∧
    duration " 1h 30m ".toList = .ok (.ofSeconds 5400) ∧
    SameLength " 1h 30m " (.ofSeconds 5400) ∧
    Layer.duration "environment" "query_timeout" " 1h 30m " = .ok (.ofSeconds 5400) := by
  obtain ⟨hagrees, ⟨hread, -⟩, hplain, hsame, hsetting⟩ := durations_agree
  have hminutes : ('m', Duration.TimeUnit.minute) ∈ Duration.plainUnits := by decide
  have hgreatest : IsDecimal "00307445734561825860".toList 307445734561825860 :=
    ⟨by simp, by simp, by rfl⟩
  have hlonger : IsDecimal "307445734561825861".toList 307445734561825861 :=
    ⟨by simp, by simp, by rfl⟩
  have hbreak : Layer.duration "environment" "query_timeout" " 1h 30m " =
      .ok (.ofSeconds 5400) := by rfl
  have hduration := hsetting _ _ _ _ hbreak
  refine ⟨hagrees _ hread " 1h 30m ".toList, hgreatest, ?_, ?_, hduration,
    hsame _ _ hduration, hbreak⟩
  · exact hplain "00307445734561825860m".toList _ _ 'm' _ (by rfl) hgreatest hminutes
  · exact hplain "307445734561825861m".toList _ _ 'm' _ (by rfl) hlonger hminutes

end Telemetry.Query
