import Telemetry.Json.Decoder
import Telemetry.Json.Reader
import Telemetry.Record.Json
import Telemetry.Series.Basic

/-!
The body that answers a query: a status, the series of the result, or an error.
-/

set_option autoImplicit false

namespace Telemetry.Query

/-! ## Bodies -/

/-- A series in a body: its labels, and pairs of seconds and values. -/
structure ResponseSeries where
  metric : Labels
  values : List (Float × Float)

/-- A body. -/
structure Response where
  succeeded : Bool
  data : Option (ResultKind × List ResponseSeries) := none
  error : Option String := none

/-- The label under which a series has its name. -/
def nameLabel : String := "__name__"

/-- A series as it stands in a body. The label for the name is set, even where there is one. -/
def ResponseSeries.ofSeries (s : Series) : ResponseSeries :=
  { metric := s.labels.insert nameLabel s.name
    values := s.points.map fun p => (p.time.toSeconds, p.value) }

/-- The body for a result. -/
def Response.success (result : QueryResult) : Response :=
  { succeeded := true
    data := some (result.kind, result.series.map ResponseSeries.ofSeries) }

/-- The body for an error. -/
def Response.failure (message : String) : Response :=
  { succeeded := false, error := some message }

/-! ## Writing -/

/-- A series as an object. -/
def ResponseSeries.toJson (s : ResponseSeries) : Json :=
  .object [("metric", s.metric.toJson),
    ("values", .array (s.values.map fun v => .array [.ofFloat v.1, .ofFloat v.2]))]

/-- A body as an object; what is not there is left out. -/
def Response.toJson (r : Response) : Json :=
  let status := ("status", Json.string (if r.succeeded then "success" else "error"))
  let data :=
    match r.data with
    | none => []
    | some (kind, series) =>
      [("data", Json.object [("resultType", .string kind.name),
        ("result", .array (series.map ResponseSeries.toJson))])]
  let error :=
    match r.error with
    | none => []
    | some message => [("error", Json.string message)]
  .object (status :: data ++ error)

/-! ## Reading -/

open Json.Decoder (record text double list optional variant labelSet required)

/-- A pair of doubles. -/
def pair : Json.Decoder (Float × Float)
  | 0, .array _ => .error .tooDeep
  | levels + 1, .array [a, b] => do return (← double levels a, ← double levels b)
  | _, .unreadable => .error .unreadable
  | _, _ => .error (.unexpected "a pair of numbers")

/-- A series of a body. -/
def responseSeries : Json.Decoder ResponseSeries := fun levels v => do
  let set (levels : Nat) (p : Option Labels × Option (List (Float × Float))) (name : String)
      (v : Json) : Except Json.Fault (Option Labels × Option (List (Float × Float))) := do
    match name with
    | "metric" => return (some (← labelSet levels v), p.2)
    | _ => return (p.1, some (← list pair levels v))
  let (metric, values) ← record ["metric", "values"] 2 (none, none) set levels v
  return ⟨← required "metric" metric, ← required "values" values⟩

/-- The names of the kinds of results. -/
def kindNames : List (String × ResultKind) :=
  [ResultKind.vector, .matrix, .scalar].map fun k => (k.name, k)

/-- The data of a body. -/
def responseData : Json.Decoder (ResultKind × List ResponseSeries) := fun levels v => do
  let set (levels : Nat) (p : Option ResultKind × Option (List ResponseSeries)) (name : String)
      (v : Json) : Except Json.Fault (Option ResultKind × Option (List ResponseSeries)) := do
    match name with
    | "resultType" => return (some (← variant kindNames levels v), p.2)
    | _ => return (p.1, some (← list responseSeries levels v))
  let (kind, series) ← record ["resultType", "result"] 2 (none, none) set levels v
  return (← required "resultType" kind, ← required "result" series)

/-- A body. -/
def response : Json.Decoder Response := fun levels v => do
  let set (levels : Nat) (p : Option Bool × Response) (name : String) (v : Json) :
      Except Json.Fault (Option Bool × Response) := do
    match name with
    | "status" => return (some (← variant [("success", true), ("error", false)] levels v), p.2)
    | "data" => return (p.1, { p.2 with data := ← optional responseData levels v })
    | _ => return (p.1, { p.2 with error := ← optional text levels v })
  let (status, r) ←
    record ["status", "data", "error"] 1 (none, { succeeded := false }) set levels v
  return { r with succeeded := ← required "status" status }

/-- The body that a text describes. -/
def Response.ofText (s : String) : Except Json.Fault Response := do
  response Json.maxLevels (← Json.readText s)

end Telemetry.Query
