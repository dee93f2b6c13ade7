import Telemetry.Ingest.Pipeline
import Telemetry.Otlp.Request

/-!
The handling of an export: its request is decoded and what comes of it is submitted. The answer says
how much was refused on the way, and why the first of it was.

What is refused is counted in a 64-bit word, which wraps around, and reported as a signed one, which
stops at the greatest.
-/

set_option autoImplicit false

namespace Telemetry.Ingest

open Time (Instant)

/-! ## What is refused -/

/-- How many items of an export have been refused so far, and why the first of them was. -/
structure Rejections where
  count : UInt64 := 0
  firstError : Option String := none
  deriving DecidableEq, Repr

namespace Rejections

/-- Adds refused items; the reason stays the first one. -/
def add (r : Rejections) (count : Nat) (reason : Option String) : Rejections :=
  ⟨r.count + .ofNat count, r.firstError <|> reason⟩

/-- What is refused when a request is read as JSON. -/
def ofLosses (l : Otlp.FromJson.Losses) : Rejections :=
  ⟨.ofNat l.rejected, l.firstError.map Error.message⟩

end Rejections

/-- The reason that is given when units are dropped. -/
def droppedReason (count : Nat) : String := toString count ++ " record(s) failed to store"

/-- The rejections after a submission of so many units: those that were dropped are added, and all
of them where the writer took none. -/
def Rejections.afterSubmission (r : Rejections) (units : Nat) : Except Error Nat → Rejections
  | .ok 0 => r
  | .ok dropped => r.add dropped (some (droppedReason dropped))
  | .error e => r.add units (some e.message)

/-! ## What is reported -/

/-- What an export reports back: how many of its items were refused, and why the first of them was.
Where there is no reason, the message is empty. -/
structure Outcome where
  rejected : Int64 := 0
  errorMessage : String := ""
  deriving DecidableEq, Repr

/-- A count as a signed word. One that does not fit is reported as the greatest that does. -/
def reported (count : UInt64) : Int64 :=
  if count ≤ 0x7FFFFFFFFFFFFFFF then count.toInt64 else Int64.maxValue

/-- The report on what was refused. -/
def Rejections.report (r : Rejections) : Outcome := ⟨reported r.count, r.firstError.getD ""⟩

/-! ## Exports -/

/-- Decodes a request and submits its records. What was refused before is part of the outcome. -/
def accept (now : Instant) (writer : Writer) (store : Store) (prior : Rejections)
    (request : Otlp.Request) : Store × Outcome :=
  let decoded := request.decode now
  let (store, submitted) := submit now writer store decoded.units
  let rejections := prior.add decoded.rejected (decoded.firstError.map Error.message)
  (store, (rejections.afterSubmission decoded.units.length submitted).report)

end Telemetry.Ingest
