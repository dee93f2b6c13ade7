import Telemetry.Labels
import Telemetry.Time.Duration

/-!
Queries on metrics: a selector with at most one function and one aggregation applied on top of it,
in that order.
-/

set_option autoImplicit false

namespace Telemetry

open Time (Duration)

/-! ## Groupings -/

/-- Which labels tell the groups of an aggregation apart. -/
inductive Grouping where
  /-- There is one group. -/
  | none
  /-- The labels of these names. -/
  | on (names : List String)
  /-- The labels of all other names. -/
  | without (names : List String)
  deriving DecidableEq, Repr, Inhabited

/-- The labels of the group to which a label set belongs. -/
def Grouping.labels : Grouping → Labels → Labels
  | .none, _ => Dictionary.empty
  | .on names, labels => labels.filterKeys fun k => names.contains k
  | .without names, labels => labels.filterKeys fun k => !names.contains k

/-! ## Queries -/

/-- An aggregation, by name, with its grouping. -/
structure Aggregation where
  operation : String
  grouping : Grouping
  deriving DecidableEq, Repr

/-- A query. The names in it need not be known ones. -/
structure Query where
  metric : String := ""
  labels : Labels := Dictionary.empty
  function : Option String := none
  range : Option Duration := none
  aggregation : Option Aggregation := none
  deriving DecidableEq, Repr, Inhabited

end Telemetry
