import Telemetry.Query.Parser
import Telemetry.Time.Bound

/-!
The window of a query: the instants between which points are fetched, and how it follows from the
texts of a request.
-/

set_option autoImplicit false

namespace Telemetry.Query

open Time (Instant Duration)

/-! ## Windows -/

/-- Two instants, both included, the second not before the first. -/
structure Window where
  start : Instant
  stop : Instant
  ordered : start ≤ stop
  deriving Repr

/-- The window between two instants; an error where they are in the wrong order. -/
def Window.between (start stop : Instant) : Except Error Window :=
  if h : start ≤ stop then .ok ⟨start, stop, h⟩
  else .error (.invalidArgument (.windowReversed start stop))

/-- The window of a given length before an instant. -/
def Window.endingAt (stop : Instant) (lookback : Duration) : Except Error Window := do
  Window.between (← stop.minus (← lookback.toSigned)) stop

/-! ## Requests -/

/-- The bounds of a request, as texts. -/
structure Bounds where
  start : Option String := none
  stop : Option String := none
  timeRange : Option String := none
  step : Option String := none
  deriving Repr

/-- The readings of the clock while bounds are resolved: one for each bound that is relative to it.
They need not be equal, since time passes between them. -/
structure Clock where
  atStop : Instant
  atStart : Instant

/-- A text that is there and not blank, trimmed. -/
def present (text : Option String) : Option String :=
  (text.map Text.trimmed).filter fun t => !t.isEmpty

/-- The length of the window of a request that gives neither a start nor a time range. -/
def defaultLookback : Duration := .ofSeconds 3600

/-- Checks the step of a request, which has no other effect. -/
def Bounds.checkStep (b : Bounds) : Except Error Unit := do
  match present b.step with
  | none => return
  | some text =>
    if (← duration text.toList).nanos = 0 then throw (.invalidArgument .stepNotPositive)

/-- The window that the bounds denote. Without an end it is `now`; without a start it is the time
range before the end. -/
def Bounds.resolve (b : Bounds) (now : Instant) (clock : Clock) : Except Error Window := do
  b.checkStep
  let stop ←
    match present b.stop with
    | some text => Instant.ofText clock.atStop text
    | none => pure now
  let start ←
    match present b.start with
    | some text => Instant.ofText clock.atStart text
    | none => do
      let lookback ←
        match present b.timeRange with
        | some text => duration text.toList
        | none => pure defaultLookback
      stop.minus (← lookback.toSigned)
  Window.between start stop

end Telemetry.Query
