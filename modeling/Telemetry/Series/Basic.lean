import Telemetry.Labels
import Telemetry.Time.Instant

/-!
Time series: rows as they are fetched, series as they are computed with, and the collection of rows
into series.
-/

set_option autoImplicit false

namespace Telemetry

open Time (Instant)

/-! ## Types -/

/-- A value at an instant. -/
structure Point where
  time : Instant
  value : Float
  deriving Repr, Inhabited

/-- The points of one label set. -/
structure Series where
  name : String
  labels : Labels
  points : List Point
  deriving Repr, Inhabited

/-- A point together with the series it belongs to. -/
structure Row where
  name : String
  time : Instant
  value : Float
  labels : Labels
  deriving Repr

/-- The kind of a result. -/
inductive ResultKind where
  | vector
  | matrix
  | scalar
  deriving DecidableEq, Repr

/-- The name of a kind. -/
def ResultKind.name : ResultKind → String
  | .vector => "vector"
  | .matrix => "matrix"
  | .scalar => "scalar"

/-- The result of a query. -/
structure QueryResult where
  kind : ResultKind
  series : List Series
  deriving Repr

/-! ## From rows to series -/

/-- The point of a row. -/
def Row.point (row : Row) : Point := ⟨row.time, row.value⟩

/-- Points by ascending time; those of one time stay in their order. -/
def sortPoints (points : List Point) : List Point :=
  points.mergeSort fun a b => decide (a.time ≤ b.time)

/-- The series of rows: one for each label key, in the order of the keys, with the name and labels
of its first row. -/
def Series.ofRows (rows : List Row) : List Series :=
  (Dictionary.collect (fun row => row.labels.key) rows).entries.map fun (_, first, others) =>
    { name := first.name
      labels := first.labels
      points := sortPoints ((first :: others).map Row.point) }

/-- A series of one point. -/
def Series.single (name : String) (labels : Labels) (time : Instant) (value : Float) : Series :=
  ⟨name, labels, [⟨time, value⟩]⟩

end Telemetry
