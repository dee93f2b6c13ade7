import Telemetry.Ingest.Export
import Telemetry.Json.Basic
import Telemetry.Text.Blank

/-!
Requests and responses, as far as the services look at them.
-/

set_option autoImplicit false

namespace Telemetry.Http

/-! ## Requests -/

/-- A request. Headers that are not sent are absent. -/
structure Request where
  method : String
  target : String
  contentType : Option String := none
  contentEncoding : Option String := none
  body : List UInt8 := []

/-- A header whose characters all are visible in ASCII, or blanks. Others are not looked at. -/
def readable (header : Option String) : Option String :=
  header.filter fun text =>
    text.toList.all fun c => c == '\t' || (0x20 ≤ c.toNat && c.toNat < 0x7F)

namespace Request

/-- The target without the part behind a number sign. -/
def address (r : Request) : List Char := r.target.toList.takeWhile (· ≠ '#')

/-- The path of the target. -/
def path (r : Request) : String := String.ofList (r.address.takeWhile (· ≠ '?'))

/-- The query of the target, behind its first question mark. -/
def query (r : Request) : String := String.ofList ((r.address.dropWhile (· ≠ '?')).drop 1)

end Request

/-! ## Responses -/

/-- The receipt for an export of which something was refused. -/
structure PartialSuccess where
  rejected : Int64
  message : String
  deriving DecidableEq, Repr

/-- The receipt for an export: nothing is said where nothing was refused. -/
abbrev Receipt := Option PartialSuccess

/-- The receipt for an outcome. -/
def Receipt.ofOutcome (o : Ingest.Outcome) : Receipt :=
  if 0 < o.rejected then some ⟨o.rejected, o.errorMessage⟩ else none

/-- What a response brings. -/
inductive Body where
  | empty
  | text (s : String)
  | json (v : Json)
  | receipt (r : Receipt)

/-- A response. -/
structure Response where
  status : Nat
  contentType : Option String := none
  body : Body := .empty

namespace Response

/-- A response with a status alone. -/
def bare (status : Nat) : Response := { status }

/-- A response with a text. -/
def ofText (status : Nat) (text : String) : Response :=
  { status, contentType := some "text/plain; charset=utf-8", body := .text text }

/-- A response with a value. -/
def ofJson (status : Nat) (v : Json) : Response :=
  { status, contentType := some "application/json", body := .json v }

/-- A response with a receipt in its binary form. -/
def ofReceipt (r : Receipt) : Response :=
  { status := 200, contentType := some "application/x-protobuf", body := .receipt r }

/-- The response without its body. -/
def withoutBody (r : Response) : Response := { r with body := .empty }

end Response

end Telemetry.Http
