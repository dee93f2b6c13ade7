import Telemetry.Proofs.Query.Overreach
import Telemetry.Proofs.Query.Reading

/-!
Windows that are given by lengths of time.

A length of time can be written as the time range of a request or as its start. The two are read by
different readers, which agree (`duration_eq_ok_iff`), but they are subtracted from different
instants: the time range from the instant of the request, a start from what the clock shows when the
start is read. So a start leads to a shorter window as soon as the clock has moved on, and to none
once it has moved by more than the length itself. Likewise an end and a start are subtracted from
two readings, and their distance is taken off the difference of the lengths.

Each of the three forms of request comes down to going back from its readings (`resolve_timeRange`,
`resolve_start`, `resolve_start_stop`); what a window then is follows from their order.
-/

set_option autoImplicit false

namespace Telemetry.Query

open Fallible
open Text (trim trimmed)
open Time (Instant Duration Reaches)

/-! ## Relative texts -/

/-- Whether a text denotes a length of time, blanks around it aside. -/
def Relative (text : String) (d : Duration) : Prop := Duration.read (trim text.toList) = .ok d

/-- A length of time is no time of RFC 3339, since it has no dash. -/
theorem strict?_eq_none_of_read {cs : List Char} {d : Duration} (h : Duration.read cs = .ok d) :
    Time.strict? cs = none := by
  cases hstrict : Time.strict? cs with
  | none => rfl
  | some t =>
    have hdash := Duration.isTimeChar_of_read h '-' (Time.dash_mem_of_strict? hstrict)
    cases hdash

namespace Relative

variable {text : String} {d : Duration} (h : Relative text d)

include h

/-- A relative time is not blank, so it is present, without the blanks around it. -/
theorem present_eq : present (some text) = some (trimmed text) := by
  have hne : (trimmed text).isEmpty = false := by
    rw [Bool.eq_false_iff, ne_eq, String.isEmpty_iff]
    intro hempty
    have hnil : trim text.toList = [] := by
      rw [← Text.toList_trimmed, hempty]
      rfl
    rw [Relative, hnil] at h
    cases h
  rw [present, Option.map_some, Option.filter_some_pos (by simp [hne])]

/-- Read as a time range. -/
theorem duration_eq : duration (trimmed text).toList = .ok d := by
  rw [duration_eq_ok_iff, Text.toList_trimmed, Text.trim_trim]
  exact h

/-- Read as a bound. -/
theorem ofText_eq (clock : Instant) : Instant.ofText clock (trimmed text) = clock.back d := by
  unfold Relative at h
  rw [Instant.ofText, Text.toList_trimmed, strict?_eq_none_of_read h, h]
  rfl

end Relative

/-! ## The three forms -/

section Forms

variable {text text' : String} {d e : Duration} {now : Instant} {clock : Clock}

/-- With a length of time to look back, the window ends now and begins so much earlier. -/
theorem resolve_timeRange (h : Relative text d) :
    ({ timeRange := some text } : Bounds).resolve now clock =
      (do Window.between (← now.back d) now) := by
  rw [Bounds.resolve_eq]
  unfold Bounds.startAt Bounds.lookback
  simp only [h.present_eq, h.duration_eq]
  rfl

/-- With a relative start, the window ends now, and begins so much before a reading of the clock.
-/
theorem resolve_start (h : Relative text d) :
    ({ start := some text } : Bounds).resolve now clock =
      (do Window.between (← clock.atStart.back d) now) := by
  rw [Bounds.resolve_eq]
  unfold Bounds.startAt
  simp only [h.present_eq, h.ofText_eq]
  rfl

/-- With both bounds relative, each of them is counted from a reading of its own. -/
theorem resolve_start_stop (h : Relative text d) (h' : Relative text' e) :
    ({ start := some text, stop := some text' } : Bounds).resolve now clock =
      (do
        let stop ← clock.atStop.back e
        Window.between (← clock.atStart.back d) stop) := by
  rw [Bounds.resolve_eq]
  unfold Bounds.stopAt Bounds.startAt
  simp only [h.present_eq, h.ofText_eq, h'.present_eq, h'.ofText_eq]
  rfl

end Forms

/-! ## Readings of the clock

The clock is read when the request comes in, when the end is read and when the start is read, in
this order. Nothing is assumed of it but that it does not go back. -/

/-- Whether an instant is one that a clock shows: it lies in the calendar, and in no leap second. -/
structure Shown (t : Instant) : Prop where
  inCalendar : t.inCalendar = true
  not_leap : t.isLeap = false

/-- Whether the clock does not go back while a request is read: it shows `now` for the request, then
an instant for its end, and then one for its start. -/
structure Clock.Follows (clock : Clock) (now : Instant) : Prop where
  shown : Shown now
  shown_atStop : Shown clock.atStop
  shown_atStart : Shown clock.atStart
  now_le : now ≤ clock.atStop
  atStop_le : clock.atStop ≤ clock.atStart

namespace Clock.Follows

variable {now : Instant} {clock : Clock} (h : clock.Follows now)

include h

theorem toNanos_now_le : now.toNanos ≤ clock.atStop.toNanos :=
  (Instant.le_iff_toNanos_le h.shown.not_leap h.shown_atStop.not_leap).1 h.now_le

theorem toNanos_atStop_le : clock.atStop.toNanos ≤ clock.atStart.toNanos :=
  (Instant.le_iff_toNanos_le h.shown_atStop.not_leap h.shown_atStart.not_leap).1 h.atStop_le

/-- What can be subtracted from the first reading can be subtracted from the last one. -/
theorem reaches_atStart {d : Duration} (hd : Reaches now d) : Reaches clock.atStart d := by
  have hstop := h.toNanos_now_le
  have hstart := h.toNanos_atStop_le
  have hcalendar := hd.2
  exact ⟨hd.1, by omega⟩

end Clock.Follows

/-! ## Windows

Each form means a window in terms of the readings it uses, so two forms agree exactly if their
readings do. -/

theorem Window.between_eq_ok {start stop : Instant} (h : start ≤ stop) :
    Window.between start stop = .ok ⟨start, stop, h⟩ :=
  dif_pos h

theorem Window.between_eq_error {start stop : Instant} (h : ¬ start ≤ stop) :
    Window.between start stop = .error (.invalidArgument (.windowReversed start stop)) :=
  dif_neg h

section Windows

variable {now : Instant} {clock : Clock}

/-- The windows of a length of time as the time range and as the start of a request. -/
structure RangeAndStart (text : String) (d : Duration) (now : Instant) (clock : Clock) : Prop where
  /-- The time range ends at the instant of the request, and begins so long before it. -/
  ranged : ∃ hle, ({ timeRange := some text } : Bounds).resolve now clock =
    .ok ⟨now.shift (-d.nanos), now, hle⟩
  /-- The start is as much later as its reading. -/
  started (h : clock.atStart.toNanos ≤ now.toNanos + d.nanos) :
    ∃ hle, ({ start := some text } : Bounds).resolve now clock =
      .ok ⟨clock.atStart.shift (-d.nanos), now, hle⟩
  /-- With a later reading the start lies behind the end. -/
  refused (h : now.toNanos + d.nanos < clock.atStart.toNanos) :
    ({ start := some text } : Bounds).resolve now clock =
      .error (.invalidArgument (.windowReversed (clock.atStart.shift (-d.nanos)) now))
  agree_iff : ({ start := some text } : Bounds).resolve now clock =
    ({ timeRange := some text } : Bounds).resolve now clock ↔ clock.atStart = now

/-- The windows of two lengths of time as the start and the end of a request. -/
structure StartAndStop (text text' : String) (d e : Duration) (now : Instant) (clock : Clock) :
    Prop where
  /-- There is a window as long as no more time passes between the readings than the length of the
  start exceeds that of the end. -/
  succeeds (he : Reaches clock.atStop e) (hd : Reaches clock.atStart d)
    (h : clock.atStart.toNanos - clock.atStop.toNanos ≤ (d.nanos : Int) - e.nanos) :
    ∃ hle, ({ start := some text, stop := some text' } : Bounds).resolve now clock =
      .ok ⟨clock.atStart.shift (-d.nanos), clock.atStop.shift (-e.nanos), hle⟩
  refused (he : Reaches clock.atStop e) (hd : Reaches clock.atStart d)
    (h : (d.nanos : Int) - e.nanos < clock.atStart.toNanos - clock.atStop.toNanos) :
    ({ start := some text, stop := some text' } : Bounds).resolve now clock =
      .error (.invalidArgument (.windowReversed (clock.atStart.shift (-d.nanos))
        (clock.atStop.shift (-e.nanos))))
  /-- A length of time that is too long, or reaches too far, has no window. -/
  fails (h : ¬ (Reaches clock.atStop e ∧ Reaches clock.atStart d)) :
    ({ start := some text, stop := some text' } : Bounds).resolve now clock =
        .error (.invalidArgument .durationTooLong) ∨
      ({ start := some text, stop := some text' } : Bounds).resolve now clock =
        .error .beyondRange

/-- A length of time to look back and the same length as a start, on a clock that follows: how far
the two windows differ. -/
theorem Clock.Follows.rangeAndStart (h : clock.Follows now) {text : String} {d : Duration}
    (htext : Relative text d) (hd : Reaches now d) : RangeAndStart text d now clock := by
  -- both windows end now; one begins the length before it, and the other one before a later
  -- reading
  have hranged : ({ timeRange := some text } : Bounds).resolve now clock =
      .ok ⟨now.shift (-d.nanos), now, now.shift_neg_le (Int.natCast_nonneg _)⟩ := by
    rw [resolve_timeRange htext, hd.back_eq_ok h.shown.inCalendar]
    exact Window.between_eq_ok _
  have hstarted : ({ start := some text } : Bounds).resolve now clock =
      Window.between (clock.atStart.shift (-d.nanos)) now := by
    rw [resolve_start htext, (h.reaches_atStart hd).back_eq_ok h.shown_atStart.inCalendar]
    rfl
  have horder := Instant.shift_neg_le_iff h.shown_atStart.not_leap h.shown.not_leap d.nanos
  exact {
    ranged := ⟨_, hranged⟩
    started := by
      intro hle
      have hordered := horder.2 (by omega)
      rw [hstarted]
      exact ⟨hordered, Window.between_eq_ok hordered⟩
    refused := by
      intro hlt
      rw [hstarted]
      exact Window.between_eq_error fun hordered => by
        have hnanos := horder.1 hordered
        omega
    agree_iff := by
      rw [hranged]
      constructor
      -- the starts are the readings, moved by the same length
      · intro hagree
        rw [hstarted] at hagree
        by_cases hordered : clock.atStart.shift (-d.nanos) ≤ now
        · rw [Window.between_eq_ok hordered] at hagree
          have hstart := congrArg Window.start (Except.ok.inj hagree)
          exact Instant.shift_inj h.shown_atStart.not_leap h.shown.not_leap hstart
        · rw [Window.between_eq_error hordered] at hagree
          cases hagree
      · intro hsame
        rw [hstarted, hsame]
        exact Window.between_eq_ok _ }

theorem Clock.Follows.startAndStop (h : clock.Follows now) {text text' : String} {d e : Duration}
    (htext : Relative text d) (htext' : Relative text' e) :
    StartAndStop text text' d e now clock := by
  have hstop := h.shown_atStop
  have hstart := h.shown_atStart
  -- the end is counted from the first reading of the clock, the start from the second
  have hreached (he : Reaches clock.atStop e) (hd : Reaches clock.atStart d) :
      ({ start := some text, stop := some text' } : Bounds).resolve now clock =
        Window.between (clock.atStart.shift (-d.nanos)) (clock.atStop.shift (-e.nanos)) := by
    rw [resolve_start_stop htext htext', he.back_eq_ok hstop.inCalendar,
      hd.back_eq_ok hstart.inCalendar]
    rfl
  have hleap : (clock.atStop.shift (-e.nanos)).isLeap = false := by
    rw [Instant.shift_of_not_leap hstop.not_leap]
    exact Instant.isLeap_ofNanos _
  have horder := Instant.shift_neg_le_iff hstart.not_leap hleap d.nanos
  rw [Instant.toNanos_shift_neg _ (Int.natCast_nonneg _)] at horder
  exact {
    succeeds := by
      intro he hd hle
      have hordered := horder.2 (by omega)
      rw [hreached he hd]
      exact ⟨hordered, Window.between_eq_ok hordered⟩
    refused := by
      intro he hd hlt
      rw [hreached he hd]
      exact Window.between_eq_error fun hordered => by
        have hnanos := horder.1 hordered
        omega
    fails := by
      intro hnot
      rw [resolve_start_stop htext htext']
      -- the end is subtracted first, so its failure is the one that shows
      by_cases he : Reaches clock.atStop e
      · rw [he.back_eq_ok hstop.inCalendar]
        have hd : ¬ Reaches clock.atStart d := fun hd => hnot ⟨he, hd⟩
        rcases Instant.back_of_not_reaches hstart.inCalendar hd with hback | hback
        · rw [hback]
          exact .inl rfl
        · rw [hback]
          exact .inr rfl
      · rcases Instant.back_of_not_reaches hstop.inCalendar he with hback | hback
        · rw [hback]
          exact .inl rfl
        · rw [hback]
          exact .inr rfl }

/-- **What relative windows depend on.** On a clock that does not go back, a length of time as a
start leads to a later start than as a time range, by as much as the clock has moved on, or to no
window at all; and an end and a start lead to a window just if the clock moves on by no more than
their difference. -/
theorem relative_windows (h : clock.Follows now) :
    (∀ (text : String) (d : Duration), Relative text d → Reaches now d →
      RangeAndStart text d now clock) ∧
    ∀ (text text' : String) (d e : Duration), Relative text d → Relative text' e →
      StartAndStop text text' d e now clock :=
  ⟨fun _ _ htext hd => h.rangeAndStart htext hd, fun _ _ _ _ htext htext' =>
    h.startAndStop htext htext'⟩

end Windows

/-- A clock that moves on by a nanosecond from one reading to the next, from the beginning of 1970
on. -/
def tickingClock : Clock := ⟨.ofNanos 1, .ofNanos 2⟩

/-- A clock that ticks between readings follows. -/
theorem tickingClock_follows : tickingClock.Follows .epoch :=
  ⟨⟨by decide, by decide⟩, ⟨by decide, by decide⟩, ⟨by decide, by decide⟩, by decide, by decide⟩

/-- Five minutes is a relative time. -/
theorem relative_5m : Relative "5m" (.ofSeconds 300) := by rfl

theorem relative_0s : Relative "0s" (.ofSeconds 0) := by rfl

/-- On that clock the last five minutes are two windows, and none between equal lengths of time. -/
theorem relative_windows_of_tickingClock :
    tickingClock.Follows .epoch ∧ Relative "5m" (.ofSeconds 300) ∧
    Reaches .epoch (.ofSeconds 300) ∧ Relative "0s" (.ofSeconds 0) ∧
    (∃ hle, ({ timeRange := some "5m" } : Bounds).resolve .epoch tickingClock =
      .ok ⟨.ofNanos (-300000000000), .epoch, hle⟩) ∧
    (∃ hle, ({ start := some "5m" } : Bounds).resolve .epoch tickingClock =
      .ok ⟨.ofNanos (-299999999998), .epoch, hle⟩) ∧
    ({ start := some "0s" } : Bounds).resolve .epoch tickingClock =
      .error (.invalidArgument (.windowReversed (.ofNanos 2) .epoch)) ∧
    ({ start := some "5m", stop := some "5m" } : Bounds).resolve .epoch tickingClock =
      .error (.invalidArgument
        (.windowReversed (.ofNanos (-299999999998)) (.ofNanos (-299999999999)))) := by
  have hreaches : Reaches .epoch (.ofSeconds 300) := by decide
  have hranges := (relative_windows tickingClock_follows).1
  have hminutes := hranges "5m" _ relative_5m hreaches
  have hnothing := hranges "0s" _ relative_0s (by decide)
  have hboth := (relative_windows tickingClock_follows).2 "5m" "5m" _ _ relative_5m relative_5m
  exact ⟨tickingClock_follows, relative_5m, hreaches, relative_0s, hminutes.ranged,
    hminutes.started (by decide), hnothing.refused (by decide),
    hboth.refused (by decide) (by decide) (by decide)⟩

/-- The beginning of February 2026. -/
def february : Instant := .ofNanos 1769904000000000000

/-- A clock on which it is already the first of March. -/
def lateClock : Clock := ⟨.ofNanos 1772366400000000000, .ofNanos 1772366400000000000⟩

/-- March comes after February, so the late clock does not go back. -/
theorem lateClock_follows : lateClock.Follows february :=
  ⟨⟨by decide, by decide⟩, ⟨by decide, by decide⟩, ⟨by decide, by decide⟩, by decide, by decide⟩

/-- So a start and a time range of the same length do not always mean the same window, and a start
that goes back no less than the end does not always have one. For a request of February that is read
in March, a start five minutes back lies behind the end, where a time range of five minutes is a
window. Where a start goes back to before the calendar, there is not even an error. -/
theorem relative_windows_differ :
    (¬ ∀ (now : Instant) (clock : Clock), clock.Follows now → ∀ (text : String) (d : Duration),
      Relative text d → Reaches now d → ({ start := some text } : Bounds).resolve now clock =
        ({ timeRange := some text } : Bounds).resolve now clock) ∧
    (¬ ∀ (now : Instant) (clock : Clock), clock.Follows now →
      ∀ (text text' : String) (d e : Duration), Relative text d → Relative text' e →
        Reaches clock.atStart d → e.nanos ≤ d.nanos →
        ∃ window, ({ start := some text, stop := some text' } : Bounds).resolve now clock =
          .ok window) ∧
    (lateClock.Follows february ∧
      (∃ hle, ({ timeRange := some "5m" } : Bounds).resolve february lateClock =
        .ok ⟨.ofNanos 1769903700000000000, february, hle⟩) ∧
      ({ start := some "5m" } : Bounds).resolve february lateClock =
        .error (.invalidArgument (.windowReversed (.ofNanos 1772366100000000000) february))) ∧
    ({ start := some "100000000d", stop := some "1s" } : Bounds).resolve .epoch epochClock =
      .error .beyondRange := by
  refine ⟨?_, ?_, ?_, ?_⟩
  -- a clock that ticks tells the two starts apart
  · intro hsame
    have hagree := hsame .epoch tickingClock tickingClock_follows "5m" _ relative_5m (by decide)
    have hminutes := tickingClock_follows.rangeAndStart relative_5m (by decide)
    exact absurd (hminutes.agree_iff.1 hagree) (by decide)
  -- and leaves nothing between two equal lengths of time
  · intro hexists
    obtain ⟨window, hwindow⟩ := hexists .epoch tickingClock tickingClock_follows "5m" "5m" _ _
      relative_5m relative_5m (by decide) (Nat.le_refl _)
    have hboth := tickingClock_follows.startAndStop relative_5m relative_5m
    rw [hboth.refused (by decide) (by decide) (by decide)] at hwindow
    cases hwindow
  -- with a month between the readings, the start lies behind the end
  · have hminutes := lateClock_follows.rangeAndStart relative_5m (by decide)
    exact ⟨lateClock_follows, hminutes.ranged, hminutes.refused (by decide)⟩
  -- the last case needs no clock at all
  · have hlong : Relative "100000000d" (.ofSeconds 8640000000000) := by rfl
    have hshort : Relative "1s" (.ofSeconds 1) := by rfl
    rw [resolve_start_stop hlong hshort]
    rfl

end Telemetry.Query
