import Telemetry.Query.Basic
import Telemetry.Error
import Telemetry.Series.Change

/-!
Reducing several series to one: the five aggregations, and their application to groups.
-/

set_option autoImplicit false

namespace Telemetry

open Time (Instant)

namespace Series

/-! ## Names -/

/-- The names of the aggregations. -/
def aggregations : List String := ["sum", "avg", "count", "min", "max"]

/-- Refuses a name of which there is no aggregation. -/
def ensureAggregation (operation : String) : Except Error Unit :=
  if operation ∈ aggregations then .ok () else .error (.unsupported (.aggregation operation))

/-! ## Sums by time -/

/-- The points of a series, of neighbours with the same time only the first. -/
def firstAtTime : List Point → List Point
  | [] => []
  | p :: points => p :: go p.time points
where
  /-- The points behind one of the given time. -/
  go (last : Instant) : List Point → List Point
    | [] => []
    | p :: points => if p.time = last then go last points else p :: go p.time points

/-- A sum at an instant, and the number of its terms. -/
structure Total where
  time : Instant
  sum : Float
  terms : Nat

/-- Adds a point to the totals, which are in ascending order of time. -/
def addPoint (p : Point) : List Total → List Total
  | [] => [⟨p.time, 0.0 + p.value, 1⟩]
  | t :: totals =>
    if p.time < t.time then ⟨p.time, 0.0 + p.value, 1⟩ :: t :: totals
    else if p.time = t.time then ⟨t.time, t.sum + p.value, t.terms + 1⟩ :: totals
    else t :: addPoint p totals

/-- The totals of several series. -/
def totals (members : List Series) : List Total :=
  members.foldl (fun acc s => (firstAtTime s.points).foldl (fun acc p => addPoint p acc) acc) []

/-- The sum at each time at which a member has a point. -/
def sumByTime (members : List Series) : List Point :=
  (totals members).map fun t => ⟨t.time, t.sum⟩

/-- The mean at each time at which a member has a point. -/
def meanByTime (members : List Series) : List Point :=
  (totals members).map fun t => ⟨t.time, t.sum / floatOfWord t.terms⟩

/-! ## Extremes -/

/-- The smaller of two numbers, and of a number and none the number; of equal ones the first. -/
def smaller (x y : Float) : Float :=
  if x.isNaN then y else if y.isNaN then x else if y < x then y else x

/-- The greater of two numbers, in the same way. -/
def greater (x y : Float) : Float :=
  if x.isNaN then y else if y.isNaN then x else if x < y then y else x

/-- Folds the values of all points of several series, in order; none if there is no point. -/
def reduce? (f : Float → Float → Float) (members : List Series) : Option Float :=
  match members.flatMap fun s => s.points.map (·.value) with
  | [] => none
  | v :: vs => some (vs.foldl f v)

/-! ## Groups -/

/-- Reduces a group by the aggregation of a name: `first` is its first member, and `labels` are
those of the group. The last arm is for the greatest value; no name but that of an aggregation comes
here. -/
def reduceGroup (operation : String) (time : Instant) (labels : Labels) (first : Series)
    (others : List Series) : Option Series :=
  let members := first :: others
  match operation with
  | "sum" => some ⟨first.name, labels, sumByTime members⟩
  | "avg" => some ⟨first.name, labels, meanByTime members⟩
  | "count" => some (single "count" labels time (floatOfWord members.length))
  | "min" => (reduce? smaller members).map (single first.name labels time)
  | _ => (reduce? greater members).map (single first.name labels time)

/-- Reduces series group by group, in the order of the keys of the groups. Of no series there is
still a count when the grouping makes one group. -/
def reduceGroups (operation : String) (grouping : Grouping) (series : List Series)
    (time : Instant) : List Series :=
  if series.isEmpty then
    if operation = "count" ∧ grouping = .none then [single "count" Dictionary.empty time 0.0]
    else []
  else
    let key (s : Series) := (grouping.labels s.labels).key
    (Dictionary.collect key series).entries.filterMap fun (_, first, others) =>
      reduceGroup operation time (grouping.labels first.labels) first others

/-- Applies an aggregation to series. Its name is checked once more. -/
def aggregate (a : Aggregation) (series : List Series) (time : Instant) :
    Except Error (List Series) := do
  ensureAggregation a.operation
  return reduceGroups a.operation a.grouping series time

end Series

end Telemetry
