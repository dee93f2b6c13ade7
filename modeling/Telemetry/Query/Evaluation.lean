import Telemetry.Query.Window
import Telemetry.Series.Function

/-!
The evaluation of a query over a window.

Rows come from a source. It is asked at most once, and only after the names in the query have turned
out to be known and its range to be usable. A source may do anything meanwhile, which is why it acts
in a monad of its own; in particular the query may be cancelled, and then there is no result.
-/

set_option autoImplicit false

namespace Telemetry.Query

open Time (Instant Duration)

/-! ## Sources -/

/-- What is asked of a source: the rows of a metric between two instants, both included, whose
labels include the given ones. -/
structure Fetch where
  metric : String
  start : Instant
  stop : Instant
  labels : Labels
  deriving Repr

/-- Where rows come from. -/
structure Source (m : Type → Type) where
  /-- The rows asked for. -/
  fetch : Fetch → m (Except Error (List Row))
  /-- Whether the query has been cancelled by now. -/
  cancelled : m Bool

/-! ## Before the source is asked -/

/-- What a query asks of its source, and what is done with the rows. -/
structure Plan where
  fetch : Fetch
  function : Option String
  aggregation : Option Aggregation
  range : Option Int
  stop : Instant
  kind : ResultKind

/-- The start of what is fetched: for a range without a function it is the range before the end,
as far as that lies in the window. -/
def fetchStart (query : Query) (window : Window) (range : Option Int) : Except Error Instant :=
  match query.function, range with
  | none, some range => do return Instant.latest window.start (← window.stop.minus range)
  | _, _ => return window.start

/-- The kind of the result of a query: a range alone is a matrix. -/
def resultKind (query : Query) : ResultKind :=
  if query.range.isSome ∧ query.function.isNone ∧ query.aggregation.isNone then .matrix
  else .vector

/-- Refuses a query that names a function or an aggregation of which there is none. -/
def ensureNames (query : Query) : Except Error Unit := do
  query.function.forM Series.ensureFunction
  query.aggregation.forM fun a => Series.ensureAggregation a.operation

/-- Settles everything about a query that does not depend on rows. -/
def plan (query : Query) (window : Window) : Except Error Plan := do
  ensureNames query
  let range ← query.range.mapM Duration.toSigned
  let start ← fetchStart query window range
  return {
    fetch := ⟨query.metric, start, window.stop, query.labels⟩
    function := query.function
    aggregation := query.aggregation
    range
    stop := window.stop
    kind := resultKind query }

/-! ## After it has answered -/

/-- What the function of a plan makes of series. -/
def Plan.applied (p : Plan) (series : List Series) : Except Error (List Series) :=
  match p.function with
  | some name => Series.apply name series p.range p.stop
  | none => .ok series

/-- What the aggregation of a plan makes of series. -/
def Plan.aggregated (p : Plan) (series : List Series) : Except Error (List Series) :=
  match p.aggregation with
  | some a => Series.aggregate a series p.stop
  | none => .ok series

/-- The result that rows have under a plan: the function is applied first, then the aggregation. -/
def Plan.finish (p : Plan) (rows : List Row) : Except Error QueryResult := do
  let series ← p.applied (Series.ofRows rows)
  let series ← p.aggregated series
  return ⟨p.kind, series⟩

/-- An error of the source as one of the evaluation; that the query was cancelled stays as it is. -/
def sourceError (metric : String) : Error → Error
  | .cancelled => .cancelled
  | e => .evaluation metric e

/-! ## Evaluation -/

/-- Whether a query is the bare function `time`. -/
def isTime (query : Query) : Bool := query.function == some "time" && query.aggregation.isNone

/-- Evaluates a query over a window. -/
def evaluate {m : Type → Type} [Monad m] (source : Source m) (query : Query) (window : Window) :
    m (Except Error QueryResult) := do
  if isTime query then return .ok ⟨.scalar, [Series.timeSeries window.stop]⟩
  match plan query window with
  | .error e => return .error e
  | .ok p =>
    match ← source.fetch p.fetch with
    | .error e => return .error (sourceError query.metric e)
    | .ok rows =>
      match p.finish rows with
      | .error e => return .error e
      | .ok result => if ← source.cancelled then return .error .cancelled else return .ok result

/-- Reads a query, checks it against the built-in functions, and evaluates it. -/
def execute {m : Type → Type} [Monad m] (source : Source m) (text : String) (window : Window) :
    m (Except Error QueryResult) := do
  match parse text with
  | .error e => return .error e
  | .ok query =>
    match Catalog.builtin.validate query with
    | .error e => return .error e
    | .ok () => evaluate source query window

end Telemetry.Query
