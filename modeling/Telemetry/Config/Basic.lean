import Telemetry.Error

/-!
Configurations: their twelve settings, the defaults, and what a usable one has to satisfy.
-/

set_option autoImplicit false

namespace Telemetry

open Time (Duration)

/-! ## The form of the log -/

/-- The forms in which a service writes its log. -/
inductive LogFormat where
  | compact
  | json
  deriving DecidableEq, Repr

namespace LogFormat

/-- The name of a form. -/
def name : LogFormat → String
  | .compact => "compact"
  | .json => "json"

/-- A text with the capital letters of ASCII made small. -/
def lowered (text : String) : String := String.ofList (text.toList.map Char.toLower)

/-- The form that a text names, in letters of either case. -/
def ofText? (text : String) : Option LogFormat :=
  [("compact", .compact), ("text", .compact), ("json", .json)].lookup (lowered text)

/-- The form that a text names, or an error. -/
def ofText (text : String) : Except Error LogFormat :=
  match ofText? text with
  | some f => .ok f
  | none => .error (.configuration (.unknownLogFormat (lowered text)))

end LogFormat

/-! ## Configurations -/

/-- A configuration. -/
structure Config where
  dbPath : String := "./data/telemorph.duckdb"
  otlpGrpcAddr : String := "127.0.0.1:4317"
  otlpHttpAddr : String := "127.0.0.1:4318"
  apiAddr : String := "127.0.0.1:8080"
  grpcEnabled : Bool := true
  httpEnabled : Bool := true
  retentionDays : UInt32 := 30
  retentionInterval : Duration := .ofSeconds 3600
  writeBatchSize : UInt64 := 1000
  writeChannelCapacity : UInt64 := 8192
  queryTimeout : Duration := .ofSeconds 30
  logFormat : LogFormat := .compact
  deriving DecidableEq, Repr

namespace Config

/-- How long records are kept. -/
def retention (c : Config) : Duration := .ofSeconds (c.retentionDays.toNat * 86400)

/-- Checks that records are kept and written at all, and that time passes between sweeps. -/
def validate (c : Config) : Except Error Unit := do
  if c.retentionDays = 0 then throw (.configuration (.belowOne "retention_days"))
  if c.writeBatchSize = 0 then throw (.configuration (.belowOne "write_batch_size"))
  if c.writeChannelCapacity = 0 then
    throw (.configuration (.belowOne "write_channel_capacity"))
  if c.retentionInterval.nanos = 0 then throw (.configuration (.notPositive "retention_interval"))

end Config

end Telemetry
