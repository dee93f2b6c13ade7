import Telemetry.Config.Address
import Telemetry.Config.Load
import Telemetry.Json.Basic
import Telemetry.Query.Catalog

/-!
The command line: what the arguments ask for, and what comes of it.

There are two commands of weight. One lists the functions of the query language. The other settles
everything that a service needs before it can run, and fails where that is not possible. Besides,
the program shows how it is used, and its version.

What runs once the settings are settled is left out: the opening of the database and of the sockets,
the tasks that serve them, and the orderly end of these.
-/

set_option autoImplicit false

namespace Telemetry

/-! ## Arguments -/

/-- The settings that arguments give; they take the place of those of every layer. -/
structure Flags where
  config : Option String := none
  dbPath : Option String := none
  otlpGrpcAddr : Option String := none
  otlpHttpAddr : Option String := none
  apiAddr : Option String := none
  retentionDays : Option UInt32 := none
  logFormat : Option LogFormat := none
  deriving Repr

/-- A command. -/
inductive Command where
  | run (flags : Flags)
  | functions (json : Bool)
  | help
  | version
  deriving Repr

namespace Flags

/-- A setting that is not given yet, and the value it gets; a setting is given only once. -/
def once {α : Type} (old : Option α) (value : Option α) : Option (Option α) :=
  if old.isSome then none else value.map some

/-- A path, which may not be empty. -/
def path? (value : String) : Option String := if value.isEmpty then none else some value

/-- A number of days. -/
def days? (value : String) : Option UInt32 :=
  match Text.Integer.signed Text.Integer.maxSigned64 value.toList with
  | .ok n => if 0 ≤ n ∧ n ≤ Text.Integer.maxUnsigned32 then some (UInt32.ofNat n.toNat) else none
  | .error _ => none

/-- Adds the setting of an option, given by its name without the two dashes. -/
def set? (f : Flags) (name value : String) : Option Flags :=
  match name with
  | "config" => (once f.config (path? value)).map fun v => { f with config := v }
  | "db-path" => (once f.dbPath (path? value)).map fun v => { f with dbPath := v }
  | "otlp-grpc-addr" => (once f.otlpGrpcAddr value).map fun v => { f with otlpGrpcAddr := v }
  | "otlp-http-addr" => (once f.otlpHttpAddr value).map fun v => { f with otlpHttpAddr := v }
  | "api-addr" => (once f.apiAddr value).map fun v => { f with apiAddr := v }
  | "retention-days" =>
    (once f.retentionDays (days? value)).map fun v => { f with retentionDays := v }
  | "log-format" =>
    (once f.logFormat (LogFormat.ofText? value)).map fun v => { f with logFormat := v }
  | _ => none

/-- The name of an option, and its value where an equals sign joins them. -/
def option? (argument : String) : Option (String × Option String) :=
  match argument.toList with
  | '-' :: '-' :: body =>
    let name := String.ofList (body.takeWhile (· ≠ '='))
    match body.dropWhile (· ≠ '=') with
    | [] => some (name, none)
    | _ :: value => some (name, some (String.ofList value))
  | _ => none

/-- Whether an argument can be the value of the option before it: it does not start with a dash, or
is a dash alone. -/
def isValue (argument : String) : Bool := !argument.startsWith "-" || argument == "-"

/-- Adds the settings of options. Two dashes may end them. -/
def read? (f : Flags) : List String → Option Flags
  | [] | ["--"] => some f
  | [argument] =>
    match option? argument with
    | some (name, some value) => f.set? name value
    | _ => none
  | argument :: next :: arguments =>
    match option? argument with
    | some (name, some value) => (f.set? name value).bind fun f => f.read? (next :: arguments)
    | some (name, none) =>
      if isValue next then (f.set? name next).bind fun f => f.read? arguments else none
    | none => none

end Flags

/-- Whether an argument asks how the program is used. -/
def asksForHelp (argument : String) : Bool := argument == "--help" || argument == "-h"

/-- Whether an argument asks for the version. -/
def asksForVersion (argument : String) : Bool := argument == "--version" || argument == "-V"

/-- The command to run with options. What stands behind a question for help is not looked at. -/
def Command.ofOptions? (arguments : List String) : Option Command :=
  let options := arguments.takeWhile fun a => !asksForHelp a
  let asked := options.length < arguments.length
  if asked && options.contains "--" then none
  else (({} : Flags).read? options).map fun flags => if asked then .help else .run flags

/-- The command that arguments ask for, if they ask for one. -/
def Command.ofArguments? : List String → Option Command
  | [] => none
  | "run" :: arguments => ofOptions? arguments
  | ["functions"] | ["functions", "--"] => some (.functions false)
  | ["functions", "--json"] | ["functions", "--json", "--"] => some (.functions true)
  | "functions" :: "--json" :: a :: _ | "functions" :: a :: _ =>
    if asksForHelp a then some .help else none
  | ["help"] | ["help", "run"] | ["help", "functions"] | ["help", "help"] => some .help
  | a :: _ =>
    if asksForHelp a then some .help else if asksForVersion a then some .version else none

/-! ## What the program says about itself -/

/-- How the program is used. -/
def usage : String :=
  "OpenTelemetry ingest, storage and PromQL-style query service\n\n" ++
    "Usage: telemorph <COMMAND>\n\n" ++
    "Commands:\n" ++
    "  run        Run the OTLP ingest servers and the query API\n" ++
    "  functions  List the query functions the evaluator supports\n" ++
    "  help       Print this message or the help of the given subcommand(s)\n\n" ++
    "Options:\n" ++
    "  -h, --help     Print help\n" ++
    "  -V, --version  Print version\n"

/-- The name of the program and its version. -/
def versionLine : String := "telemorph 0.3.0\n"

/-! ## The list of functions -/

/-- The names of shapes as an array. -/
def Query.Shape.namesJson (shapes : List Query.Shape) : Json :=
  .array (shapes.map fun s => .string s.name)

/-- A declaration as an object. -/
def Query.Declaration.toJson (d : Query.Declaration) : Json :=
  .object [("name", .string d.name), ("args", Query.Shape.namesJson d.arguments),
    ("returns", .string d.result.name), ("aggregation", .bool d.aggregates),
    ("description", .string d.description)]

/-- A declaration as a line, the name filled up to ten characters. -/
def Query.Declaration.line (d : Query.Declaration) : String :=
  let pad := String.ofList (List.replicate (10 - d.name.length) ' ')
  let arguments := String.intercalate ", " (d.arguments.map (·.name))
  let mark := if d.aggregates then " [aggregation]" else ""
  d.name ++ pad ++ " (" ++ arguments ++ ") -> " ++ d.result.name ++ mark ++ "  " ++
    d.description ++ "\n"

/-- The list of the built-in functions, as lines or as JSON. -/
def functionList (json : Bool) : String :=
  let declarations := Query.Catalog.builtin.toList
  if json then
    (Json.array (declarations.map Query.Declaration.toJson)).renderIndented 0 ++ "\n"
  else String.join (declarations.map Query.Declaration.line)

/-! ## Before a service runs -/

/-- What a service runs with. -/
structure Settings where
  config : Config
  grpc : Option Address
  http : Option Address
  api : Address
  deriving Repr

/-- Why a service cannot run. -/
inductive StartFault where
  | notLoaded (cause : Error)
  | invalid (cause : Error)
  | badAddress (setting value : String)
  deriving Repr

/-- A text under the heading of causes, each of its lines indented. -/
def causedBy (heading cause : String) : String :=
  heading ++ "\n\nCaused by:" ++
    String.join ((cause.splitOn "\n").map fun line => "\n    " ++ line)

/-- The fault in words. -/
def StartFault.message : StartFault → String
  | .notLoaded cause => causedBy "load config" cause.message
  | .invalid cause => causedBy "invalid configuration" cause.message
  | .badAddress setting value =>
    causedBy ("invalid " ++ setting ++ ": " ++ value) "invalid socket address syntax"

/-- The configuration under the settings that arguments give. -/
def Flags.apply (f : Flags) (c : Config) : Config :=
  { c with
    dbPath := f.dbPath.getD c.dbPath
    otlpGrpcAddr := f.otlpGrpcAddr.getD c.otlpGrpcAddr
    otlpHttpAddr := f.otlpHttpAddr.getD c.otlpHttpAddr
    apiAddr := f.apiAddr.getD c.apiAddr
    retentionDays := f.retentionDays.getD c.retentionDays
    logFormat := f.logFormat.getD c.logFormat }

/-- The configuration of a service: the one that is loaded, under the settings that arguments give.
Both are validated. -/
def Flags.configure (f : Flags) (files : Config.Files) (env : Layer.Environment) :
    Except StartFault Config := do
  let loaded ← (Config.load files env f.config).mapError StartFault.notLoaded
  let c := f.apply loaded
  c.validate.mapError StartFault.invalid
  return c

/-- The address that a setting denotes. -/
def address (setting value : String) : Except StartFault Address :=
  match Address.ofText? value with
  | some a => .ok a
  | none => .error (.badAddress setting value)

/-- The address that a setting denotes, where it is in use. -/
def addressIf (enabled : Bool) (setting value : String) :
    Except StartFault (Option Address) :=
  if enabled then (address setting value).map some else .ok none

/-- What a service with a configuration runs with. -/
def Config.settings (c : Config) : Except StartFault Settings := do
  return {
    config := c
    grpc := ← addressIf c.grpcEnabled "otlp_grpc_addr" c.otlpGrpcAddr
    http := ← addressIf c.httpEnabled "otlp_http_addr" c.otlpHttpAddr
    api := ← address "api_addr" c.apiAddr }

/-! ## Outcomes -/

/-- What comes of a command. -/
inductive Outcome where
  | printed (text : String)
  | failed (fault : StartFault)
  | misused
  | ready (settings : Settings)
  deriving Repr

/-- What comes of arguments. -/
def outcome (files : Config.Files) (env : Layer.Environment) (arguments : List String) : Outcome :=
  match Command.ofArguments? arguments with
  | none => .misused
  | some (.functions json) => .printed (functionList json)
  | some .help => .printed usage
  | some .version => .printed versionLine
  | some (.run flags) =>
    match flags.configure files env >>= Config.settings with
    | .ok settings => .ready settings
    | .error fault => .failed fault

/-- The exit code of an outcome. -/
def Outcome.code : Outcome → UInt32
  | .printed _ | .ready _ => 0
  | .failed _ => 1
  | .misused => 2

/-- What an outcome writes to the error output. -/
def Outcome.complaint : Outcome → String
  | .failed fault => "Error: " ++ fault.message ++ "\n"
  | .misused => usage
  | .printed _ | .ready _ => ""

end Telemetry
