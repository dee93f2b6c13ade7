import Telemetry.Proofs.Query.Execution
import Telemetry.Query.Window

/-!
Where the path of a query leaves what date arithmetic is defined for.

Lengths of time come from the texts of a request and are bounded by 64 bits of seconds. Those that
are too long to be converted are refused, but what can be converted reaches far beyond the calendar,
and nothing else is looked at before it is subtracted. The places of such a subtraction are the
bounds that are relative to a clock, the time range, the range of a selector, and the range of
`increase`. Besides them the seconds can be exhausted while a length of time is read.

For the bounds of a request (`Bounds.Overreach`) and for the execution of a query
(`ExecutionOverreach`) all the ways are listed, and the main statement is that there are no others.
-/

set_option autoImplicit false

namespace Telemetry.Query

open Fallible
open Text (trim)
open Time (Instant Duration Overreaches TextOverreaches)

/-! ## The parts of a window

A window is computed from an end, which may be relative, and a start, which may be relative, a
range before the end, or a default before the end. Each of these may leave the calendar in its own
way. -/

/-- The end of the window that some bounds denote. -/
def Bounds.stopAt (b : Bounds) (now : Instant) (clock : Clock) : Except Error Instant :=
  match present b.stop with
  | some text => Instant.ofText clock.atStop text
  | none => pure now

/-- The length of the window of bounds without a start. -/
def Bounds.lookback (b : Bounds) : Except Error Duration :=
  match present b.timeRange with
  | some text => duration text.toList
  | none => pure defaultLookback

/-- The start of the window, given its end. -/
def Bounds.startAt (b : Bounds) (clock : Clock) (stop : Instant) : Except Error Instant :=
  match present b.start with
  | some text => Instant.ofText clock.atStart text
  | none => do stop.back (← b.lookback)

/-- The window is made of its end and its start, in this order: the start may be counted back from
the end. -/
theorem Bounds.resolve_eq (b : Bounds) (now : Instant) (clock : Clock) :
    b.resolve now clock = (do
      b.checkStep
      let stop ← b.stopAt now clock
      let start ← b.startAt clock stop
      Window.between start stop) := by
  unfold resolve stopAt startAt lookback
  cases present b.stop <;> cases present b.start <;> cases present b.timeRange <;>
    simp only [Instant.back, bind_assoc, pure_bind]

variable {b : Bounds} {now : Instant} {clock : Clock}

/-- The end of a window is in the calendar, whether it is the present, the time of a text, or a
length of time before the reading of a clock. -/
theorem Bounds.inCalendar_of_stopAt (hnow : now.inCalendar = true) {stop : Instant}
    (h : b.stopAt now clock = .ok stop) : stop.inCalendar = true := by
  rw [stopAt] at h
  split at h
  · exact Instant.inCalendar_of_ofText h
  · cases h
    exact hnow

/-! ## Bounds -/

/-- The ways in which the bounds of a request leave what date arithmetic is defined for. -/
inductive Bounds.Overreach (b : Bounds) (now : Instant) (clock : Clock) : Prop where
  /-- The step exhausts the seconds. -/
  | step {text : String} (h : present b.step = some text) (hover : Exhausts text.toList)
  /-- The end is relative to the clock, and reaches too far. -/
  | stop {text : String} (hstep : b.checkStep = .ok ()) (h : present b.stop = some text)
    (hover : TextOverreaches clock.atStop text)
  /-- The start is relative to the clock, and reaches too far. -/
  | start {text : String} {stop : Instant} (hstep : b.checkStep = .ok ())
    (hstop : b.stopAt now clock = .ok stop) (h : present b.start = some text)
    (hover : TextOverreaches clock.atStart text)
  /-- There is no start, and the time range exhausts the seconds. -/
  | timeRange {text : String} {stop : Instant} (hstep : b.checkStep = .ok ())
    (hstop : b.stopAt now clock = .ok stop) (h : present b.start = none)
    (hrange : present b.timeRange = some text) (hover : Exhausts text.toList)
  /-- There is no start, and the length of the window reaches too far from its end. -/
  | lookback {d : Duration} {stop : Instant} (hstep : b.checkStep = .ok ())
    (hstop : b.stopAt now clock = .ok stop) (h : present b.start = none)
    (hrange : b.lookback = .ok d) (hover : Overreaches stop d)

/-- Checking the step panics exactly if there is one and it exhausts the seconds. -/
theorem Bounds.checkStep_eq_beyondRange_iff :
    b.checkStep = .error .beyondRange ↔
      ∃ text, present b.step = some text ∧ Exhausts text.toList := by
  rw [checkStep]
  cases present b.step with
  | none => simp
  | some text =>
    have hpositive (d : Duration) : (if d.nanos = 0 then
        throw (Error.invalidArgument .stepNotPositive) else pure () : Except Error Unit) ≠
        .error .beyondRange := by
      split <;> simp
    simp [bind_eq_error_iff, duration_eq_beyondRange_iff, hpositive]

/-- Finding the end panics exactly if its text does. -/
theorem Bounds.stopAt_eq_beyondRange_iff (hclock : clock.atStop.inCalendar = true) :
    b.stopAt now clock = .error .beyondRange ↔
      ∃ text, present b.stop = some text ∧ TextOverreaches clock.atStop text := by
  rw [stopAt]
  cases present b.stop with
  | none => simp
  | some text => simp [Instant.ofText_eq_beyondRange_iff hclock]

/-- Finding how far to look back panics exactly if its text exhausts the seconds. -/
theorem Bounds.lookback_eq_beyondRange_iff :
    b.lookback = .error .beyondRange ↔
      ∃ text, present b.timeRange = some text ∧ Exhausts text.toList := by
  rw [lookback]
  cases present b.timeRange with
  | none => simp
  | some text => simp [duration_eq_beyondRange_iff]

/-- Finding the start panics if its text does. Without one it panics if the length of time to look
back does, or leads out of the calendar. -/
theorem Bounds.startAt_eq_beyondRange_iff (hclock : clock.atStart.inCalendar = true)
    {stop : Instant} (hstop : stop.inCalendar = true) :
    b.startAt clock stop = .error .beyondRange ↔
      (∃ text, present b.start = some text ∧ TextOverreaches clock.atStart text) ∨
      (present b.start = none ∧
        (b.lookback = .error .beyondRange ∨ ∃ d, b.lookback = .ok d ∧ Overreaches stop d)) := by
  rw [startAt]
  cases present b.start with
  | none => simp [bind_eq_error_iff, Instant.back_eq_beyondRange_iff hstop]
  | some text => simp [Instant.ofText_eq_beyondRange_iff hclock]

/-- Putting the two bounds together never panics. -/
theorem Window.between_ne_beyondRange (start stop : Instant) :
    Window.between start stop ≠ .error .beyondRange := by
  rw [between]
  split <;> simp

/-- **When resolving a window panics.** Exactly at the places listed in the overreach of its
bounds. -/
theorem Bounds.resolve_eq_beyondRange_iff (hnow : now.inCalendar = true)
    (hstop : clock.atStop.inCalendar = true) (hstart : clock.atStart.inCalendar = true) :
    b.resolve now clock = .error .beyondRange ↔ b.Overreach now clock := by
  rw [resolve_eq, bind_eq_error_iff, checkStep_eq_beyondRange_iff]
  constructor
  -- from the panic to its place: each step passes, or is the one that panics
  · rintro (⟨text, h, hover⟩ | ⟨⟨⟩, hstep, h⟩)
    · exact .step h hover
    rw [bind_eq_error_iff, stopAt_eq_beyondRange_iff hstop] at h
    rcases h with ⟨text, h, hover⟩ | ⟨stop, hstopAt, h⟩
    · exact .stop hstep h hover
    rw [bind_eq_error_iff,
      startAt_eq_beyondRange_iff hstart (inCalendar_of_stopAt hnow hstopAt)] at h
    rcases h with (⟨text, h, hover⟩ | ⟨h, hlookback | ⟨d, hrange, hover⟩⟩) | ⟨start, -, h⟩
    · exact .start hstep hstopAt h hover
    · obtain ⟨text, hrange, hover⟩ := lookback_eq_beyondRange_iff.1 hlookback
      exact .timeRange hstep hstopAt h hrange hover
    · exact .lookback hstep hstopAt h hrange hover
    · exact absurd h (Window.between_ne_beyondRange start stop)
  -- and from the place to the panic: the steps before it pass, as each place says of itself
  · intro h
    cases h with
    | step h hover => exact .inl ⟨_, h, hover⟩
    | stop hstep h hover =>
      exact .inr ⟨(), hstep, bind_eq_error_iff.2 (.inl
        ((stopAt_eq_beyondRange_iff hstop).2 ⟨_, h, hover⟩))⟩
    | start hstep hstopAt h hover =>
      have hfails := (startAt_eq_beyondRange_iff hstart (inCalendar_of_stopAt hnow hstopAt)).2
        (.inl ⟨_, h, hover⟩)
      exact .inr ⟨(), hstep, bind_eq_error_iff.2 (.inr
        ⟨_, hstopAt, bind_eq_error_iff.2 (.inl hfails)⟩)⟩
    | timeRange hstep hstopAt h hrange hover =>
      have hfails := (startAt_eq_beyondRange_iff hstart (inCalendar_of_stopAt hnow hstopAt)).2
        (.inr ⟨h, .inl (lookback_eq_beyondRange_iff.2 ⟨_, hrange, hover⟩)⟩)
      exact .inr ⟨(), hstep, bind_eq_error_iff.2 (.inr
        ⟨_, hstopAt, bind_eq_error_iff.2 (.inl hfails)⟩)⟩
    | lookback hstep hstopAt h hrange hover =>
      have hfails := (startAt_eq_beyondRange_iff hstart (inCalendar_of_stopAt hnow hstopAt)).2
        (.inr ⟨h, .inr ⟨_, hrange, hover⟩⟩)
      exact .inr ⟨(), hstep, bind_eq_error_iff.2 (.inr
        ⟨_, hstopAt, bind_eq_error_iff.2 (.inl hfails)⟩)⟩

/-- A window that was resolved ends in the calendar. -/
theorem Bounds.inCalendar_stop (hnow : now.inCalendar = true) {window : Window}
    (h : b.resolve now clock = .ok window) : window.stop.inCalendar = true := by
  rw [resolve_eq] at h
  obtain ⟨⟨⟩, -, h⟩ := bind_eq_ok h
  obtain ⟨stop, hstop, h⟩ := bind_eq_ok h
  obtain ⟨start, -, h⟩ := bind_eq_ok h
  rw [Window.between] at h
  split at h
  · cases h
    exact inCalendar_of_stopAt hnow hstop
  · cases h

/-! ## Executions

Behind the window there are two more subtractions: that of the range from the end, and that of the
range from the time of each row. -/

/-- The ways in which the execution of a query, given its rows, leaves what date arithmetic is
defined for. -/
inductive ExecutionOverreach (text : String) (window : Window) (rows : List Row) : Prop where
  /-- The range in the text exhausts the seconds. -/
  | reading {range : List Char} (hrange : RangeOf Catalog.builtin (trim text.toList) range)
    (hover : Exhausts range)
  /-- The range of a selector reaches too far from the end of the window. -/
  | range {query : Query} {d : Duration} (hpasses : Passes text query)
    (hfunction : query.function = none) (hrange : query.range = some d)
    (hover : Overreaches window.stop d)
  /-- The range of an increase reaches too far from a row. -/
  | increase {query : Query} {d : Duration} {row : Row} (hpasses : Passes text query)
    (hfunction : query.function = some "increase") (hrange : query.range = some d)
    (hrow : row ∈ rows) (hover : Overreaches row.time d)

/-- The source that gives the same rows whatever is asked. -/
def Source.ofRows (rows : List Row) : Source Id := .ofAnswers (fun _ => .ok rows) false

/-- **When executing a query panics.** Exactly if reading it does, if its range leads out of the
calendar from the end of the window, or if the range of an increase does from a row. -/
theorem execute_eq_beyondRange_iff {text : String} {window : Window} {rows : List Row}
    (hstop : window.stop.inCalendar = true) (hrows : ∀ row ∈ rows, row.time.inCalendar = true) :
    (execute (Source.ofRows rows) text window : Id (Except Error QueryResult)) =
      .error .beyondRange ↔ ExecutionOverreach text window rows := by
  rw [Source.ofRows, execute_eq_error_iff]
  constructor
  · generalize hbeyond : Error.beyondRange = e
    intro h
    -- the check never panics, the source is only asked, and a cancellation is an error of its own
    cases h with
    | reading h =>
      obtain ⟨range, hrange, hover⟩ := parse_eq_beyondRange_iff.1 (hbeyond ▸ h)
      exact .reading hrange hover
    | checking hparse h =>
      have hclient := Catalog.validate_fails _ _ _ h
      subst hbeyond
      cases hclient
    | planning hpasses h =>
      subst hbeyond
      obtain ⟨hfunction, d, hrange, hover⟩ := (hpasses.plan_eq_beyondRange_iff hstop).1 h
      exact .range hpasses hfunction hrange hover
    | fetching hpasses hplan h => cases h
    | finishing hpasses hplan hfetch h =>
      cases hfetch
      subst hbeyond
      obtain ⟨hfunction, d, hrange, row, hrow, hover⟩ := (finish_eq_beyondRange_iff hplan hrows).1 h
      exact .increase hpasses hfunction hrange hrow hover
    | cancelling hpasses hplan hfetch hfinish h => cases h
  · intro h
    cases h with
    | reading hrange hover => exact .reading (parse_eq_beyondRange_iff.2 ⟨_, hrange, hover⟩)
    | range hpasses hfunction hrange hover =>
      exact .planning hpasses
        ((hpasses.plan_eq_beyondRange_iff hstop).2 ⟨hfunction, _, hrange, hover⟩)
    | increase hpasses hfunction hrange hrow hover =>
      obtain ⟨n, hn, -⟩ := (Time.overreaches_iff (hrows _ hrow)).1 hover
      obtain ⟨p, hplan⟩ := hpasses.checked.exists_plan window hfunction hrange hn
      exact .finishing hpasses hplan rfl
        ((finish_eq_beyondRange_iff hplan hrows).2 ⟨hfunction, _, hrange, _, hrow, hover⟩)

/-! ## The whole path -/

/-- **Where the path of a query has no result.** The bounds of a request have none exactly in the
ways listed for them; and on the window that they denote, a query with its rows has none exactly in
the ways listed for executions. Everywhere else there is a result or an error. -/
theorem beyondRange_iff_overreach (hnow : now.inCalendar = true)
    (hstop : clock.atStop.inCalendar = true) (hstart : clock.atStart.inCalendar = true) :
    (b.resolve now clock = .error .beyondRange ↔ b.Overreach now clock) ∧
    ∀ window, b.resolve now clock = .ok window → ∀ (text : String) (rows : List Row),
      (∀ row ∈ rows, Text.Integer.fitsSigned64 row.time.toNanos = true) →
      ((execute (Source.ofRows rows) text window : Id (Except Error QueryResult)) =
        .error .beyondRange ↔ ExecutionOverreach text window rows) :=
  ⟨Bounds.resolve_eq_beyondRange_iff hnow hstop hstart, fun _ hwindow _ _ hrows =>
    execute_eq_beyondRange_iff (Bounds.inCalendar_stop hnow hwindow) fun row hrow =>
      Instant.inCalendar_of_fits (hrows row hrow)⟩

/-- Bounds with a time range of more than two hundred thousand years. -/
def longRange : Bounds := { timeRange := some "100000000d" }

/-- The clock that stands at the beginning of 1970. -/
def epochClock : Clock := ⟨.epoch, .epoch⟩

/-- The length of time of the request below is a good one, and leads out of the calendar. -/
theorem longRange_overreaches : longRange.Overreach .epoch epochClock :=
  .lookback rfl rfl rfl (d := .ofSeconds 8640000000000) (by rfl) (by decide)

/-- The same length in brackets is read. -/
theorem parse_longSelector : parse "up[100000000d]" =
    .ok { metric := "up", range := some (.ofSeconds 8640000000000) } := by
  have hexpression : expression Catalog.builtin (trim "up[100000000d]".toList) =
      rangeSelector (trim "up[100000000d]".toList) := by
    rw [expression]
    split
    next => rfl
    next h => cases h
  rw [parse, if_neg (by decide), hexpression]
  rfl

/-- A selector with the same range overreaches from the end of a window, whatever its rows. -/
theorem longSelector_overreaches {window : Window} (hstop : window.stop = .epoch)
    (rows : List Row) : ExecutionOverreach "up[100000000d]" window rows :=
  .range ⟨parse_longSelector, rfl, rfl⟩ rfl rfl (hstop ▸ by decide)

/-- Both parts of the theorem at work: the one length panics while a window is resolved, and the
other one while the query is executed. -/
theorem beyondRange_of_longRange :
    longRange.resolve .epoch epochClock = .error .beyondRange ∧
    ∃ window, ({} : Bounds).resolve .epoch epochClock = .ok window ∧
      (execute (Source.ofRows [⟨"up", .epoch, 1.0, Dictionary.empty⟩]) "up[100000000d]" window :
        Id (Except Error QueryResult)) = .error .beyondRange := by
  have hnow : Instant.epoch.inCalendar = true := rfl
  have hstop : epochClock.atStop.inCalendar = true := rfl
  have hstart : epochClock.atStart.inCalendar = true := rfl
  have hrows : ∀ row ∈ [(⟨"up", .epoch, 1.0, Dictionary.empty⟩ : Row)],
      Text.Integer.fitsSigned64 row.time.toNanos = true := by
    intro row hrow
    rw [List.mem_singleton.1 hrow]
    decide
  refine ⟨(beyondRange_iff_overreach hnow hstop hstart).1.2 longRange_overreaches, _, rfl, ?_⟩
  exact ((beyondRange_iff_overreach (b := {}) hnow hstop hstart).2 _ rfl _ _ hrows).2
    (longSelector_overreaches rfl _)

/-- So there are bounds for which the path of a query has neither a result nor an error. -/
theorem query_path_overreaches :
    ¬ ∀ (b : Bounds) (now : Instant) (clock : Clock),
      (∀ t ∈ [now, clock.atStop, clock.atStart], 1970 ≤ t.date.year ∧ t.date.year ≤ 9999) →
      b.resolve now clock ≠ .error .beyondRange ∧
      ∀ window, b.resolve now clock = .ok window → ∀ (text : String) (rows : List Row),
        (∀ row ∈ rows, Text.Integer.fitsSigned64 row.time.toNanos = true) →
        (execute (Source.ofRows rows) text window : Id (Except Error QueryResult)) ≠
          .error .beyondRange := by
  intro h
  refine (h longRange .epoch epochClock (by decide)).1 ?_
  exact (Bounds.resolve_eq_beyondRange_iff rfl rfl rfl).2 longRange_overreaches

end Telemetry.Query
