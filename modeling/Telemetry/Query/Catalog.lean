import Telemetry.Error
import Telemetry.Query.Basic

/-!
The functions that queries may name, and the check of a query against them.
-/

set_option autoImplicit false

namespace Telemetry.Query

/-! ## Declarations -/

/-- The shape of an argument or a result. -/
inductive Shape where
  | instantVector
  | rangeVector
  | scalar
  | string
  deriving DecidableEq, Repr

/-- The name of a shape. -/
def Shape.name : Shape → String
  | .instantVector => "instant_vector"
  | .rangeVector => "range_vector"
  | .scalar => "scalar"
  | .string => "string"

/-- The declaration of a function. -/
structure Declaration where
  name : String
  arguments : List Shape
  result : Shape
  /-- Whether the function can also be applied to groups of series. -/
  aggregates : Bool
  description : String
  deriving DecidableEq, Repr

/-! ## Catalogs -/

/-- Declarations by name. -/
abbrev Catalog := Dictionary Declaration

namespace Catalog

/-- Adds a declaration, in place of an earlier one of the name. -/
def register (catalog : Catalog) (d : Declaration) : Catalog := catalog.insert d.name d

/-- The declarations, by ascending names. -/
def toList (catalog : Catalog) : List Declaration := catalog.entries.map (·.2)

/-- Whether a name is that of an aggregation. -/
def isAggregation (catalog : Catalog) (name : String) : Bool :=
  match catalog.get? name with
  | some d => d.aggregates
  | none => false

/-- The built-in functions. -/
def builtins : List Declaration :=
  let instant := [Shape.instantVector]
  let range := [Shape.rangeVector]
  [ ⟨"rate", range, .instantVector, false, "per-second rate of increase over the range"⟩,
    ⟨"increase", range, .instantVector, false, "increase over the range"⟩,
    ⟨"sum", instant, .instantVector, true, "sum of values at each timestamp"⟩,
    ⟨"avg", instant, .instantVector, true, "average of values at each timestamp"⟩,
    ⟨"count", instant, .instantVector, true, "number of series"⟩,
    ⟨"min", instant, .instantVector, true, "smallest value across all points"⟩,
    ⟨"max", instant, .instantVector, true, "largest value across all points"⟩,
    ⟨"abs", instant, .instantVector, false, "absolute value"⟩,
    ⟨"ceil", instant, .instantVector, false, "round up to the nearest integer"⟩,
    ⟨"floor", instant, .instantVector, false, "round down to the nearest integer"⟩,
    ⟨"round", instant, .instantVector, false, "round to the nearest integer"⟩,
    ⟨"timestamp", instant, .instantVector, false, "sample timestamp in unix seconds"⟩,
    ⟨"time", [], .scalar, false, "evaluation time in unix seconds"⟩ ]

/-- The catalog of the built-in functions. -/
def builtin : Catalog := builtins.foldl register Dictionary.empty

/-! ## The check -/

/-- Checks that the function of a query is declared and gets an argument of the declared shape. -/
def validateFunction (catalog : Catalog) (query : Query) : Except Error Unit :=
  match query.function with
  | none =>
    if query.metric.isEmpty then throw (.query .metricNameRequired "") else return
  | some name =>
    match catalog.get? name with
    | none => throw (.unsupportedFunction name)
    | some d =>
      match d.arguments.head? with
      | none => if query.metric.isEmpty then return else throw (.query .argumentRefused name)
      | some shape =>
        if query.metric.isEmpty then throw (.query .argumentRequired name)
        else
          match shape, query.range with
          | .rangeVector, none => throw (.query .rangeRequired name)
          | .instantVector, some _ => throw (.query .rangeRefused name)
          | _, _ => return

/-- The shape of what a query aggregates. -/
def inputShape (catalog : Catalog) (query : Query) : Option Shape :=
  match query.function, query.range with
  | some name, _ => (catalog.get? name).map (·.result)
  | none, some _ => some .rangeVector
  | none, none => some .instantVector

/-- Checks that the aggregation of a query is declared and gets an instant vector. -/
def validateAggregation (catalog : Catalog) (query : Query) : Except Error Unit :=
  match query.aggregation with
  | none => return
  | some a =>
    if !catalog.isAggregation a.operation then throw (.unsupportedFunction a.operation)
    else if catalog.inputShape query ≠ some .instantVector then
      throw (.query .aggregationOfNonInstant a.operation)
    else return

/-- Checks a query: the function first, then the aggregation. -/
def validate (catalog : Catalog) (query : Query) : Except Error Unit := do
  catalog.validateFunction query
  catalog.validateAggregation query

end Catalog

end Telemetry.Query
