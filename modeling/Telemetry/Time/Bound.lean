import Telemetry.Error

/-!
Instants and durations where they enter and leave the program: as texts of a request, as the words
of a wire format, and as numbers in the store.
-/

set_option autoImplicit false

namespace Telemetry.Time

/-- The length as a signed number of nanoseconds; an error where it is too long. -/
def Duration.toSigned (d : Duration) : Except Error Int :=
  match d.toSigned? with
  | some n => .ok n
  | none => .error (.invalidArgument .durationTooLong)

namespace Instant

/-- The instant so many nanoseconds earlier; an error where the calendar ends. -/
def minus (t : Instant) (nanos : Int) : Except Error Instant :=
  match t.minus? nanos with
  | some t => .ok t
  | none => .error .beyondRange

/-- The instant that a text denotes: a time of RFC 3339, or a length of time before the moment at
which the clock is read. -/
def ofText (clock : Instant) (text : String) : Except Error Instant :=
  match strict? text.toList with
  | some t => .ok t
  | none =>
    match Duration.read text.toList with
    | .ok d => do clock.minus (← d.toSigned)
    | .error .carry => .error .beyondRange
    | .error _ => .error (.invalidArgument (.notATime text))

/-- The instant of an unsigned 64-bit number of nanoseconds; the upper half of the numbers has
none. -/
def ofWire (nanos : UInt64) : Except Error Instant :=
  if nanos.toNat ≤ Text.Integer.maxSigned64 then .ok (ofNanos nanos.toNat)
  else .error (.decode (.timestampOutOfRange nanos.toNat))

/-- The nanoseconds since the epoch; an error where they do not fit a 64-bit signed word. -/
def toWord (t : Instant) : Except Error Int :=
  match t.toWord? with
  | some n => .ok n
  | none => .error (.invalidArgument (.unrepresentable t))

end Instant

end Telemetry.Time
