import Telemetry.Command
import Telemetry.Http.Form
import Telemetry.Http.MediaType
import Telemetry.Http.Message
import Telemetry.Query.Request
import Telemetry.Query.Response
import Telemetry.Record.Json
import Telemetry.Store.Read

/-!
The service that answers queries, listings and questions about what is stored.

Errors that are the client's own doing are answered with status 400. Where the arithmetic of dates
leaves the calendar while the bounds of a window are settled, there is no answer at all; where that
happens in the evaluation, the service says that it failed.

How long a request takes is left out, and with it the limit after which a query is cancelled: here
it is evaluated to its end. What a cancellation does to the result is part of the evaluation itself.
-/

set_option autoImplicit false

namespace Telemetry.Http.Api

open Time (Instant)

/-! ## Parts of responses -/

/-- The status for an error. -/
def statusOf (e : Error) : Nat :=
  if e.isClientFault then 400 else if e = .cancelled then 503 else 500

/-- The response for an error. -/
def failure (e : Error) : Response := .ofJson (statusOf e) (Query.Response.failure e.message).toJson

/-- The response that brings data. -/
def success (data : Json) : Response :=
  .ofJson 200 (.object [("status", .string "success"), ("data", data)])

/-- Texts as an array. -/
def texts (ss : List String) : Json := .array (ss.map Json.string)

/-- A row as an object: its identifier, when it was inserted, and the members of its record. -/
def rowJson (r : Stored Record) : Json :=
  .object (("id", .ofNat r.id) :: ("created_at", .string r.createdAt.document) ::
    r.record.members)

/-! ## Listings -/

/-- The response with a page of the rows of a kind. -/
def listing (store : Store) (kind : RecordKind) (page : Page) : Response :=
  .ofJson 200 (.object [("data", .array ((store.list kind page).map rowJson)),
    ("total", .ofNat (store.total kind)), ("limit", .ofInt page.limit),
    ("offset", .ofInt page.offset)])

/-- The response for fields that are refused. -/
def badFields (fault : Form.Fault) : Response :=
  .ofText 400 ("Failed to deserialize query string: " ++ fault.message)

/-- The page that the query of a target asks for. -/
def pageOf (r : Request) : Except Form.Fault Page := do
  let fields := Form.pairs r.query
  return Page.ofRequest (← Form.integerField fields "limit") (← Form.integerField fields "offset")

/-- Handles a request for a listing. -/
def list (store : Store) (kind : RecordKind) (r : Request) : Response :=
  match pageOf r with
  | .ok page => listing store kind page
  | .error fault => badFields fault

/-! ## Labels -/

/-- Handles a request for the labels of a metric. -/
def labels (store : Store) (r : Request) : Response :=
  match Form.field (Form.pairs r.query) "metric" with
  | .error fault => badFields fault
  | .ok metric =>
    match metric.filter fun m => !(Text.trimmed m).isEmpty with
    | none => failure (.invalidArgument .metricRequired)
    | some metric =>
      success (.object ((store.labelValues metric).entries.map fun e => (e.1, texts e.2)))

/-! ## Queries -/

/-- Evaluates a query in the window of a request. -/
def evaluate (store : Store) (now : Instant) (clock : Query.Clock) (text : String)
    (bounds : Query.Bounds) : Except Error Response :=
  match bounds.resolve now clock with
  | .error .beyondRange => .error .beyondRange
  | .error e => .ok (failure e)
  | .ok window =>
    match store.execute false text window with
    | .error .beyondRange => .ok (failure (.internal .queryTaskFailed))
    | .error e => .ok (failure e)
    | .ok result => .ok (.ofJson 200 (Query.Response.success result).toJson)

/-- Reads the body of a request, which has to be declared as JSON. -/
def readBody {α : Type} (read : List UInt8 → Except Json.Fault α) (r : Request) :
    Except Response α :=
  let declared := (readable r.contentType).bind fun text => MediaType.read? text.toList
  if (declared.map MediaType.isJson).getD false then
    match read r.body with
    | .ok a => .ok a
    | .error fault =>
      if fault.isTextual then
        .error (.ofText 400 ("Failed to parse the request body as JSON: " ++ fault.message))
      else
        .error (.ofText 422
          ("Failed to deserialize the JSON body into the target type: " ++ fault.message))
  else .error (.ofText 415 "Expected request with \x60Content-Type: application/json\x60")

/-- Handles a query whose language is given with it. -/
def query (store : Store) (now : Instant) (clock : Query.Clock) (r : Request) :
    Except Error Response :=
  match readBody Query.Request.ofBytes r with
  | .error response => .ok response
  | .ok q =>
    match q.subject with
    | .promql =>
      match Query.present q.query with
      | none => .ok (failure (.invalidArgument .queryRequired))
      | some text => evaluate store now clock text q.bounds
    | .metrics => .ok (listing store .metrics q.page)
    | .traces => .ok (listing store .traces q.page)
    | .logs => .ok (listing store .logs q.page)
    | .logql | .traceql => .ok (failure (.unsupported (.queryLanguage q.subject.name)))

/-- Handles a query of metrics. -/
def queryMetrics (store : Store) (now : Instant) (clock : Query.Clock) (r : Request) :
    Except Error Response :=
  match readBody Query.MetricsRequest.ofBytes r with
  | .error response => .ok response
  | .ok q => evaluate store now clock q.query q.bounds

/-! ## Routes -/

/-- What a request for reading asks for, by its path. -/
def read? (store : Store) (r : Request) : Option Response :=
  match r.path with
  | "/health" => some (.ofJson 200 (.object [("status", .string "ok")]))
  | "/api/v1/query/functions" =>
    some (success (.array (Query.Catalog.builtin.toList.map Query.Declaration.toJson)))
  | "/api/v1/query/metric_names" => some (success (texts store.metricNames))
  | "/api/v1/query/labels" => some (labels store r)
  | "/api/v1/metrics" => some (list store .metrics r)
  | "/api/v1/traces" => some (list store .traces r)
  | "/api/v1/logs" => some (list store .logs r)
  | "/api/v1/services" =>
    some (.ofJson 200 (.object [("services", texts store.serviceNames)]))
  | _ => none

/-- What a request with a query asks for, by its path. -/
def query? (store : Store) (now : Instant) (clock : Query.Clock) (r : Request) :
    Option (Except Error Response) :=
  match r.path with
  | "/api/v1/query" => some (query store now clock r)
  | "/api/v1/query/metrics" => some (queryMetrics store now clock r)
  | _ => none

/-- Handles a request. What can be read can also be asked for without the body. -/
def respond (store : Store) (now : Instant) (clock : Query.Clock) (r : Request) :
    Except Error Response :=
  match read? store r, r.method with
  | some response, "GET" => .ok response
  | some response, "HEAD" => .ok response.withoutBody
  | some _, _ => .ok (.bare 405)
  | none, method =>
    match query? store now clock r with
    | some response => if method = "POST" then response else .ok (.bare 405)
    | none => .ok (.bare 404)

end Telemetry.Http.Api
