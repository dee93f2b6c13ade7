import Mathlib.Data.Option.Basic
import Telemetry.Config.Layer
import Telemetry.Proofs.Fallible

/-!
The twelve settings, one by one.

A configuration is a value for each setting, and a layer gives a value for some of them. What is
above a configuration takes its place setting by setting (`Config.under`). The layers of the program
keep some values as texts until they are applied; once all texts are read (`Layer.Gives`), to apply
a layer is nothing else (`Layer.Gives.apply`).
-/

set_option autoImplicit false

namespace Telemetry

open Time (Duration)

/-! ## Settings

Each setting has a type of values, and a name in files and in the environment. What is true of all
settings is stated once, for any of them. -/

/-- The settings of a service. -/
inductive Setting where
  | dbPath
  | otlpGrpcAddr
  | otlpHttpAddr
  | apiAddr
  | grpcEnabled
  | httpEnabled
  | retentionDays
  | retentionInterval
  | writeBatchSize
  | writeChannelCapacity
  | queryTimeout
  | logFormat
  deriving DecidableEq

namespace Setting

/-- What a setting can be. -/
abbrev Value : Setting → Type
  | .dbPath | .otlpGrpcAddr | .otlpHttpAddr | .apiAddr => String
  | .grpcEnabled | .httpEnabled => Bool
  | .retentionDays => UInt32
  | .writeBatchSize | .writeChannelCapacity => UInt64
  | .retentionInterval | .queryTimeout => Duration
  | .logFormat => LogFormat

/-- The name of a setting in a file. -/
def key : Setting → String
  | .dbPath => "db_path"
  | .otlpGrpcAddr => "otlp_grpc_addr"
  | .otlpHttpAddr => "otlp_http_addr"
  | .apiAddr => "api_addr"
  | .grpcEnabled => "grpc_enabled"
  | .httpEnabled => "http_enabled"
  | .retentionDays => "retention_days"
  | .retentionInterval => "retention_interval"
  | .writeBatchSize => "write_batch_size"
  | .writeChannelCapacity => "write_channel_capacity"
  | .queryTimeout => "query_timeout"
  | .logFormat => "log_format"

/-- The variable that a setting is taken from. -/
def variableName : Setting → String
  | .dbPath => "TELEMORPH_DB_PATH"
  | .otlpGrpcAddr => "TELEMORPH_OTLP_GRPC_ADDR"
  | .otlpHttpAddr => "TELEMORPH_OTLP_HTTP_ADDR"
  | .apiAddr => "TELEMORPH_API_ADDR"
  | .grpcEnabled => "TELEMORPH_GRPC_ENABLED"
  | .httpEnabled => "TELEMORPH_HTTP_ENABLED"
  | .retentionDays => "TELEMORPH_RETENTION_DAYS"
  | .retentionInterval => "TELEMORPH_RETENTION_INTERVAL"
  | .writeBatchSize => "TELEMORPH_WRITE_BATCH_SIZE"
  | .writeChannelCapacity => "TELEMORPH_WRITE_CHANNEL_CAPACITY"
  | .queryTimeout => "TELEMORPH_QUERY_TIMEOUT"
  | .logFormat => "TELEMORPH_LOG_FORMAT"

/-- The length of time that a text denotes. -/
def duration? (text : String) : Option Duration := (Duration.read text.toList).toOption

/-- The truth value that a text denotes. -/
def flag? : String → Option Bool
  | "true" => some true
  | "false" => some false
  | _ => none

/-- The whole number from 0 to `limit` that a text denotes. -/
def count? (limit : Nat) (text : String) : Option Nat :=
  (Text.Integer.unsigned limit text.toList).toOption

/-- The value of a setting that a text of a variable denotes. -/
def ofText? : (s : Setting) → String → Option s.Value
  | .dbPath, text | .otlpGrpcAddr, text | .otlpHttpAddr, text | .apiAddr, text => some text
  | .grpcEnabled, text | .httpEnabled, text => flag? text
  | .retentionDays, text => (count? Text.Integer.maxUnsigned32 text).map UInt32.ofNat
  | .writeBatchSize, text | .writeChannelCapacity, text =>
    (count? Text.Integer.maxUnsigned64 text).map UInt64.ofNat
  | .retentionInterval, text | .queryTimeout, text => duration? text
  | .logFormat, text => LogFormat.ofText? text

/-- The text that a file binds. -/
def boundText? : Toml.Value → Option String
  | .string text => some text
  | _ => none

/-- The truth value that a file binds. -/
def boundFlag? : Toml.Value → Option Bool
  | .bool b => some b
  | _ => none

/-- The whole number from 0 to `limit` that a file binds. -/
def boundCount? (limit : Nat) : Toml.Value → Option Nat
  | .integer n => if 0 ≤ n ∧ n ≤ limit then some n.toNat else none
  | _ => none

/-- The value of a setting that a file binds. -/
def ofToml? (v : Toml.Value) : (s : Setting) → Option s.Value
  | .dbPath | .otlpGrpcAddr | .otlpHttpAddr | .apiAddr => boundText? v
  | .grpcEnabled | .httpEnabled => boundFlag? v
  | .retentionDays => (boundCount? Text.Integer.maxUnsigned32 v).map UInt32.ofNat
  | .writeBatchSize | .writeChannelCapacity =>
    (boundCount? Text.Integer.maxUnsigned64 v).map UInt64.ofNat
  | .retentionInterval | .queryTimeout => (boundText? v).bind duration?
  | .logFormat => (boundText? v).bind LogFormat.ofText?

theorem key_injective : Function.Injective key := by
  intro s t h
  cases s <;> cases t <;> first | rfl | exact absurd h (by decide)

theorem variableName_injective : Function.Injective variableName := by
  intro s t h
  cases s <;> cases t <;> first | rfl | exact absurd h (by decide)

end Setting

/-! ## Configurations by their settings -/

namespace Config

/-- The value of a setting. -/
def get (c : Config) : (s : Setting) → s.Value
  | .dbPath => c.dbPath
  | .otlpGrpcAddr => c.otlpGrpcAddr
  | .otlpHttpAddr => c.otlpHttpAddr
  | .apiAddr => c.apiAddr
  | .grpcEnabled => c.grpcEnabled
  | .httpEnabled => c.httpEnabled
  | .retentionDays => c.retentionDays
  | .retentionInterval => c.retentionInterval
  | .writeBatchSize => c.writeBatchSize
  | .writeChannelCapacity => c.writeChannelCapacity
  | .queryTimeout => c.queryTimeout
  | .logFormat => c.logFormat

/-- The configuration with given values. -/
def ofValues (v : (s : Setting) → s.Value) : Config where
  dbPath := v .dbPath
  otlpGrpcAddr := v .otlpGrpcAddr
  otlpHttpAddr := v .otlpHttpAddr
  apiAddr := v .apiAddr
  grpcEnabled := v .grpcEnabled
  httpEnabled := v .httpEnabled
  retentionDays := v .retentionDays
  retentionInterval := v .retentionInterval
  writeBatchSize := v .writeBatchSize
  writeChannelCapacity := v .writeChannelCapacity
  queryTimeout := v .queryTimeout
  logFormat := v .logFormat

@[simp] theorem get_ofValues (v : (s : Setting) → s.Value) (s : Setting) :
    (ofValues v).get s = v s := by
  cases s <;> rfl

@[simp] theorem ofValues_get (c : Config) : ofValues c.get = c := rfl

/-- A configuration is known by its settings. -/
theorem eq_ofValues_iff {c : Config} {v : (s : Setting) → s.Value} :
    c = ofValues v ↔ ∀ s, c.get s = v s := by
  constructor
  · rintro rfl s
    exact get_ofValues v s
  · intro h
    rw [← ofValues_get c, funext h]

end Config

/-! ## What is above a configuration -/

/-- A value for some of the settings. -/
abbrev Overlay : Type := (s : Setting) → Option s.Value

/-- The configuration in which the values of an overlay take the place of its own. -/
def Config.under (c : Config) (o : Overlay) : Config := .ofValues fun s => (o s).getD (c.get s)

/-- The configuration under overlays, the uppermost one first: each setting has the first value that
is given, or the default. -/
def effective (overlays : List Overlay) : Config :=
  .ofValues fun s => (overlays.findSome? fun o => o s).getD (({} : Config).get s)

theorem findSome?_cons_overlay (o : Overlay) (overlays : List Overlay) (s : Setting) :
    ((o :: overlays).findSome? fun o => o s) = (o s <|> overlays.findSome? fun o => o s) := by
  rw [List.findSome?_cons]
  cases o s <;> rfl

theorem findSome?_singleton_overlay (o : Overlay) (s : Setting) :
    ([o].findSome? fun o => o s) = o s := by
  rw [List.findSome?_cons]
  cases o s <;> rfl

@[simp] theorem effective_nil : effective [] = {} := rfl

/-- One overlay more takes the place of what is below. -/
theorem effective_cons (o : Overlay) (overlays : List Overlay) :
    effective (o :: overlays) = (effective overlays).under o := by
  refine Config.eq_ofValues_iff.2 fun s => ?_
  rw [effective, effective, Config.get_ofValues, Config.get_ofValues, findSome?_cons_overlay]
  cases o s <;> rfl

/-! ## Layers -/

namespace Layer

/-- What a layer gives for a setting, if it gives something, and if the text of it can be read. -/
def given (layer : Layer) : (s : Setting) → Option (Option s.Value)
  | .dbPath => layer.dbPath.map some
  | .otlpGrpcAddr => layer.otlpGrpcAddr.map some
  | .otlpHttpAddr => layer.otlpHttpAddr.map some
  | .apiAddr => layer.apiAddr.map some
  | .grpcEnabled => layer.grpcEnabled.map some
  | .httpEnabled => layer.httpEnabled.map some
  | .retentionDays => layer.retentionDays.map some
  | .retentionInterval => layer.retentionInterval.map Setting.duration?
  | .writeBatchSize => layer.writeBatchSize.map some
  | .writeChannelCapacity => layer.writeChannelCapacity.map some
  | .queryTimeout => layer.queryTimeout.map Setting.duration?
  | .logFormat => layer.logFormat.map LogFormat.ofText?

/-- Whether all texts of a layer can be read, and the layer gives the values of an overlay. -/
def Gives (layer : Layer) (o : Overlay) : Prop := ∀ s, layer.given s = (o s).map some

/-- What can be read of all that is given is the result of reading it one way or another. -/
theorem mapM_of_map_eq {α β ε : Type} {read? : α → Option β} {read : α → Except ε β}
    (hread : ∀ a b, read? a = some b → read a = .ok b) {given : Option α} {value : Option β}
    (h : given.map read? = value.map some) : given.mapM read = .ok value := by
  cases given with
  | none => cases value with
    | none => rfl
    | some b => cases h
  | some a => cases value with
    | none => cases h
    | some b => exact Fallible.mapM_eq_ok_some_iff.2 ⟨a, rfl, hread a b (Option.some.inj h)⟩

/-- A layer whose texts can be read takes the place of what is below, setting by setting. -/
theorem Gives.apply {layer : Layer} {o : Overlay} (h : layer.Gives o) (source : String)
    (c : Config) : layer.apply source c = .ok (c.under o) := by
  have hplain {α : Type} {x y : Option α} (hxy : x.map some = y.map some) : x = y :=
    Option.map_injective (Option.some_injective _) hxy
  have hduration (field text : String) (d : Duration) (hd : Setting.duration? text = some d) :
      duration source field text = .ok d := by
    rw [duration, Fallible.toOption_eq_some.1 hd]
  have hformat (text : String) (f : LogFormat) (hf : LogFormat.ofText? text = some f) :
      format source text = .ok f := by
    rw [format, hf]
  rw [Layer.apply, mapM_of_map_eq (hduration _) (h .retentionInterval),
    mapM_of_map_eq (hduration _) (h .queryTimeout), mapM_of_map_eq hformat (h .logFormat),
    hplain (h .dbPath), hplain (h .otlpGrpcAddr), hplain (h .otlpHttpAddr), hplain (h .apiAddr),
    hplain (h .grpcEnabled), hplain (h .httpEnabled), hplain (h .retentionDays),
    hplain (h .writeBatchSize), hplain (h .writeChannelCapacity)]
  rfl

end Layer

end Telemetry
