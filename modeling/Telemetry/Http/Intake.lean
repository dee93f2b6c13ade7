import Telemetry.Compression.Gzip
import Telemetry.Http.Message

/-!
The service that takes exports: one path for each kind of record, bodies in binary form or as JSON,
plain or compressed.

A request is a value here: its path, the headers that are read, and its body. The transport below it
is left out, with the limits on the length of a body, and so is the same service over gRPC, which
decodes the binary form and reports the outcome in the same messages.
-/

set_option autoImplicit false

namespace Telemetry.Http.Intake

open Time (Instant)

/-! ## Requests -/

/-- The kind of record that a path takes. -/
def kindOf? (path : String) : Option RecordKind :=
  [("/v1/logs", .logs), ("/v1/traces", .traces), ("/v1/metrics", .metrics)].lookup path

/-- Whether the body of a request is JSON. -/
def isJson (r : Request) : Bool :=
  match readable r.contentType with
  | none => false
  | some text => (String.ofList (Text.trimStart text.toList)).startsWith "application/json"

/-- The name of the encoding of a body. -/
def encodingOf (r : Request) : String :=
  match readable r.contentEncoding with
  | none => ""
  | some text => String.ofList ((Text.trim text.toList).map Char.toLower)

/-- The content of a body, which may be compressed.

The limits on its length are left out: a body of more than 16 MiB is refused with status 413,
whether it is sent so or becomes so when it is decompressed. -/
def content (r : Request) : Except Error (List UInt8) :=
  match encodingOf r with
  | "" | "identity" => .ok r.body
  | "gzip" =>
    match Compression.Gzip.decode r.body with
    | .ok data => .ok data
    | .error fault => .error (.decode (.malformedGzip fault))
  | other => .error (.unsupported (.contentEncoding other))

/-- Reads the content of a body. -/
def read (json : Bool) (kind : RecordKind) (content : List UInt8) :
    Except Error (Otlp.Request × Otlp.FromJson.Losses) :=
  if json then Otlp.Request.ofJson kind content
  else
    match Otlp.Request.ofWire? kind content with
    | some request => .ok (request, {})
    | none => .error (.decode .malformedMessage)

/-! ## Responses -/

/-- The status for a body that is refused as a whole. -/
def statusOf : Error → Nat
  | .unsupported _ => 415
  | _ => 400

/-- The response for a body that is refused as a whole. -/
def refuse (json : Bool) (e : Error) : Response :=
  if json then
    .ofJson (statusOf e) (.object [("code", .ofNat 3), ("message", .string e.message)])
  else .ofText (statusOf e) e.message

/-- The name under which the number of refused items is given. -/
def rejectedName : RecordKind → String
  | .traces => "rejectedSpans"
  | .metrics => "rejectedDataPoints"
  | .logs => "rejectedLogRecords"

/-- The response for an outcome. -/
def receipt (json : Bool) (kind : RecordKind) (o : Ingest.Outcome) : Response :=
  if json then
    let reason :=
      if o.errorMessage.isEmpty then [] else [("errorMessage", Json.string o.errorMessage)]
    .ofJson 200 (.object [("partialSuccess",
      .object (reason ++ [(rejectedName kind, .ofInt o.rejected.toInt)]))])
  else .ofReceipt (.ofOutcome o)

/-- Handles an export. -/
def accept (now : Instant) (writer : Ingest.Writer) (store : Store) (kind : RecordKind)
    (r : Request) : Store × Response :=
  let json := isJson r
  match content r >>= read json kind with
  | .error e => (store, refuse json e)
  | .ok (request, losses) =>
    let (store, outcome) := Ingest.accept now writer store (.ofLosses losses) request
    (store, receipt json kind outcome)

/-- Handles a request. -/
def respond (now : Instant) (writer : Ingest.Writer) (store : Store) (r : Request) :
    Store × Response :=
  match kindOf? r.path with
  | none => (store, .bare 404)
  | some kind => if r.method = "POST" then accept now writer store kind r else (store, .bare 405)

end Telemetry.Http.Intake
