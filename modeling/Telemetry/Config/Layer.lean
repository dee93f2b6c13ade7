import Telemetry.Config.Basic

/-!
Layers of settings: what a file or the environment says, which takes the place of the settings
below.

A layer says something about each setting or nothing. Lengths of time and the form of the log are
kept as texts until the layer is applied, so that an error can name the layer.
-/

set_option autoImplicit false

namespace Telemetry

open Time (Duration)

/-! ## Layers -/

/-- What a layer says about each setting. -/
structure Layer where
  dbPath : Option String := none
  otlpGrpcAddr : Option String := none
  otlpHttpAddr : Option String := none
  apiAddr : Option String := none
  grpcEnabled : Option Bool := none
  httpEnabled : Option Bool := none
  retentionDays : Option UInt32 := none
  retentionInterval : Option String := none
  writeBatchSize : Option UInt64 := none
  writeChannelCapacity : Option UInt64 := none
  queryTimeout : Option String := none
  logFormat : Option String := none
  deriving Repr

namespace Layer

/-! ## Application -/

/-- A length of time in a layer of a given name, for a setting of a given name. -/
def duration (source field text : String) : Except Error Duration :=
  match Duration.read text.toList with
  | .ok d => .ok d
  | .error .carry => .error .beyondRange
  | .error fault => .error (.configuration (.badDuration field source fault text))

/-- The form of the log in a layer of a given name. -/
def format (source text : String) : Except Error LogFormat :=
  match LogFormat.ofText? text with
  | some f => .ok f
  | none => .error (.configuration (.badLogFormat source (LogFormat.lowered text)))

/-- The configuration under a layer of a given name. -/
def apply (layer : Layer) (source : String) (c : Config) : Except Error Config := do
  let retentionInterval ← layer.retentionInterval.mapM (duration source "retention_interval")
  let queryTimeout ← layer.queryTimeout.mapM (duration source "query_timeout")
  let logFormat ← layer.logFormat.mapM (format source)
  return {
    dbPath := layer.dbPath.getD c.dbPath
    otlpGrpcAddr := layer.otlpGrpcAddr.getD c.otlpGrpcAddr
    otlpHttpAddr := layer.otlpHttpAddr.getD c.otlpHttpAddr
    apiAddr := layer.apiAddr.getD c.apiAddr
    grpcEnabled := layer.grpcEnabled.getD c.grpcEnabled
    httpEnabled := layer.httpEnabled.getD c.httpEnabled
    retentionDays := layer.retentionDays.getD c.retentionDays
    retentionInterval := retentionInterval.getD c.retentionInterval
    writeBatchSize := layer.writeBatchSize.getD c.writeBatchSize
    writeChannelCapacity := layer.writeChannelCapacity.getD c.writeChannelCapacity
    queryTimeout := queryTimeout.getD c.queryTimeout
    logFormat := logFormat.getD c.logFormat }

/-! ## Files -/

/-- A text that a file binds to a name. -/
def text (name : String) : Toml.Value → Except FileFault String
  | .string s => .ok s
  | _ => .error (.wrongValue name)

/-- A truth value that a file binds to a name. -/
def flag (name : String) : Toml.Value → Except FileFault Bool
  | .bool b => .ok b
  | _ => .error (.wrongValue name)

/-- A whole number from 0 to `limit` that a file binds to a name. -/
def count (limit : Nat) (name : String) : Toml.Value → Except FileFault Nat
  | .integer n => if 0 ≤ n ∧ n ≤ limit then .ok n.toNat else .error (.wrongValue name)
  | _ => .error (.wrongValue name)

/-- Adds a binding of a file. -/
def bind (layer : Layer) (name : String) (v : Toml.Value) : Except FileFault Layer := do
  match name with
  | "db_path" => return { layer with dbPath := some (← text name v) }
  | "otlp_grpc_addr" => return { layer with otlpGrpcAddr := some (← text name v) }
  | "otlp_http_addr" => return { layer with otlpHttpAddr := some (← text name v) }
  | "api_addr" => return { layer with apiAddr := some (← text name v) }
  | "grpc_enabled" => return { layer with grpcEnabled := some (← flag name v) }
  | "http_enabled" => return { layer with httpEnabled := some (← flag name v) }
  | "retention_days" =>
    let n ← count Text.Integer.maxUnsigned32 name v
    return { layer with retentionDays := some (UInt32.ofNat n) }
  | "retention_interval" => return { layer with retentionInterval := some (← text name v) }
  | "write_batch_size" =>
    let n ← count Text.Integer.maxUnsigned64 name v
    return { layer with writeBatchSize := some (UInt64.ofNat n) }
  | "write_channel_capacity" =>
    let n ← count Text.Integer.maxUnsigned64 name v
    return { layer with writeChannelCapacity := some (UInt64.ofNat n) }
  | "query_timeout" => return { layer with queryTimeout := some (← text name v) }
  | "log_format" => return { layer with logFormat := some (← text name v) }
  | _ => throw (.unknownName name)

/-- The layer of a file. -/
def ofFile (contents : String) : Except FileFault Layer := do
  let bindings ← (Toml.read contents.toList).mapError FileFault.malformed
  bindings.foldlM (fun layer b => layer.bind b.1 b.2) {}

/-! ## The environment -/

/-- The values of variables, where they are set. -/
abbrev Environment := String → Option String

/-- The variables that settings are taken from. -/
def variableNames : List String :=
  ["TELEMORPH_DB_PATH", "TELEMORPH_OTLP_GRPC_ADDR", "TELEMORPH_OTLP_HTTP_ADDR",
    "TELEMORPH_API_ADDR", "TELEMORPH_GRPC_ENABLED", "TELEMORPH_HTTP_ENABLED",
    "TELEMORPH_RETENTION_DAYS", "TELEMORPH_RETENTION_INTERVAL", "TELEMORPH_WRITE_BATCH_SIZE",
    "TELEMORPH_WRITE_CHANNEL_CAPACITY", "TELEMORPH_QUERY_TIMEOUT", "TELEMORPH_LOG_FORMAT"]

/-- A truth value of a variable. -/
def variableFlag (env : Environment) (name : String) : Except Error (Option Bool) :=
  match env name with
  | none => .ok none
  | some "true" => .ok (some true)
  | some "false" => .ok (some false)
  | some _ => .error (.configuration (.badVariable name .notBoolean))

/-- A whole number from 0 to `limit` of a variable. -/
def variableCount (env : Environment) (limit : Nat) (name : String) :
    Except Error (Option Nat) :=
  match env name with
  | none => .ok none
  | some text =>
    match Text.Integer.unsigned limit text.toList with
    | .ok n => .ok (some n)
    | .error fault => .error (.configuration (.badVariable name (.notInteger fault)))

/-- The layer of the environment. -/
def ofEnvironment (env : Environment) : Except Error Layer := do
  let grpcEnabled ← variableFlag env "TELEMORPH_GRPC_ENABLED"
  let httpEnabled ← variableFlag env "TELEMORPH_HTTP_ENABLED"
  let days ← variableCount env Text.Integer.maxUnsigned32 "TELEMORPH_RETENTION_DAYS"
  let batch ← variableCount env Text.Integer.maxUnsigned64 "TELEMORPH_WRITE_BATCH_SIZE"
  let capacity ← variableCount env Text.Integer.maxUnsigned64 "TELEMORPH_WRITE_CHANNEL_CAPACITY"
  return {
    dbPath := env "TELEMORPH_DB_PATH"
    otlpGrpcAddr := env "TELEMORPH_OTLP_GRPC_ADDR"
    otlpHttpAddr := env "TELEMORPH_OTLP_HTTP_ADDR"
    apiAddr := env "TELEMORPH_API_ADDR"
    grpcEnabled, httpEnabled
    retentionDays := days.map UInt32.ofNat
    retentionInterval := env "TELEMORPH_RETENTION_INTERVAL"
    writeBatchSize := batch.map UInt64.ofNat
    writeChannelCapacity := capacity.map UInt64.ofNat
    queryTimeout := env "TELEMORPH_QUERY_TIMEOUT"
    logFormat := env "TELEMORPH_LOG_FORMAT" }

end Layer

end Telemetry
