import Telemetry.Series.Aggregate

/-!
The functions that a query may apply to series.
-/

set_option autoImplicit false

namespace Telemetry

open Time (Instant)

namespace Series

/-! ## Names -/

/-- The names of the functions that are no aggregations. -/
def functions : List String :=
  ["rate", "increase", "abs", "ceil", "floor", "round", "timestamp"]

/-- Refuses a name of which there is neither a function nor an aggregation, before anything has been
fetched for it. -/
def ensureFunction (name : String) : Except Error Unit :=
  if name ∈ functions ∨ name ∈ aggregations then .ok ()
  else .error (.unsupported (.function name))

/-- The range of a function that has no result without one. -/
def requireRange (name : String) : Option Int → Except Error Int
  | some range => .ok range
  | none => .error (.unsupported (.functionWithoutRange name))

/-! ## Application -/

/-- Applies a function to each value. -/
def mapValues (f : Point → Float) (series : List Series) : List Series :=
  series.map fun s => { s with points := s.points.map fun p => { p with value := f p } }

/-- The seconds of an instant. -/
def wholeSeconds (t : Instant) : Float := floatOfWord t.second

/-- Applies the function of a name to series; an aggregation makes one group of them. The range is
that of the selector, and `time` the instant of what has no time of its own. -/
def apply (name : String) (series : List Series) (range : Option Int) (time : Instant) :
    Except Error (List Series) :=
  match name with
  | "rate" => do
    let range ← requireRange name range
    return series.map (rate range)
  | "increase" => do
    let range ← requireRange name range
    series.mapM (increase range)
  | "abs" => .ok (mapValues (fun p => p.value.abs) series)
  | "ceil" => .ok (mapValues (fun p => p.value.ceil) series)
  | "floor" => .ok (mapValues (fun p => p.value.floor) series)
  | "round" => .ok (mapValues (fun p => p.value.round) series)
  | "timestamp" => .ok (mapValues (fun p => wholeSeconds p.time) series)
  | "sum" | "avg" | "count" | "min" | "max" => aggregate ⟨name, .none⟩ series time
  | other => .error (.unsupported (.function other))

/-- The series of the function `time`: one point, whose value is its time in seconds. -/
def timeSeries (t : Instant) : Series := single "time" Dictionary.empty t (wholeSeconds t)

end Series

end Telemetry
