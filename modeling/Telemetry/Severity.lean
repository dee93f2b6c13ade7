import Telemetry.Text.Blank

/-!
Levels of log records.
-/

set_option autoImplicit false

namespace Telemetry.Severity

/-- The level of a severity number; the numbers from 1 to 24 form six bands of four. -/
def band? (number : Int32) : Option String :=
  let n := number.toInt
  if 1 ≤ n ∧ n ≤ 4 then some "TRACE"
  else if 5 ≤ n ∧ n ≤ 8 then some "DEBUG"
  else if 9 ≤ n ∧ n ≤ 12 then some "INFO"
  else if 13 ≤ n ∧ n ≤ 16 then some "WARN"
  else if 17 ≤ n ∧ n ≤ 20 then some "ERROR"
  else if 21 ≤ n ∧ n ≤ 24 then some "FATAL"
  else none

/-- The level of a record: its text in capitals of ASCII, else the band of its number, else that of
information. -/
def level (text : String) (number : Int32) : String :=
  let cs := Text.trim text.toList
  if cs.isEmpty then (band? number).getD "INFO" else String.ofList (cs.map Char.toUpper)

end Telemetry.Severity
