import Telemetry.Compression.Gzip
import Telemetry.Json.Fault
import Telemetry.Text.Base64
import Telemetry.Time.Duration
import Telemetry.Time.Rfc3339
import Telemetry.Toml

/-!
Everything that can go wrong, by cause.

An error belongs to a family: a wrong argument, a configuration that cannot be used, a payload that
cannot be decoded, and so on. Each family has its causes. The wording of all of them is here and
nowhere else. Four families are the client's own doing, which decides how a service answers.
-/

set_option autoImplicit false

namespace Telemetry

open Time (Instant Duration)

/-! ## Causes -/

/-- What is wrong with an argument. -/
inductive ArgumentFault where
  | notATime (text : String)
  | durationTooLong
  | unrepresentable (t : Instant)
  | windowReversed (start stop : Instant)
  | stepNotPositive
  | queryRequired
  | metricRequired
  | unknownStatus (text : String)
  deriving DecidableEq, Repr

/-- What is wrong with the value of an environment variable. -/
inductive VariableFault where
  | notBoolean
  | notInteger (fault : Text.Integer.Fault)
  deriving DecidableEq, Repr

/-- What is wrong with a file of settings. -/
inductive FileFault where
  | malformed (fault : Toml.Fault)
  | unknownName (name : String)
  | wrongValue (name : String)
  deriving DecidableEq, Repr

/-- What is wrong with a configuration. -/
inductive ConfigFault where
  | fileNotFound (path : String)
  | fileUnreadable (path reason : String)
  | badFile (path : String) (fault : FileFault)
  | badVariable (name : String) (fault : VariableFault)
  | badDuration (field source : String) (fault : Duration.Fault) (value : String)
  | badLogFormat (source name : String)
  | unknownLogFormat (name : String)
  | belowOne (field : String)
  | notPositive (field : String)
  deriving DecidableEq, Repr

/-- Why a payload, or a part of it, cannot be decoded. -/
inductive DecodeFault where
  | oddHex (text : String)
  | invalidHex (text : String)
  | inField (field : String) (fault : DecodeFault)
  | timestampOutOfRange (nanos : Nat)
  | emptyTraceId
  | emptySpanId
  | emptyMetricName
  | metricWithoutData (name : String)
  | pointWithoutValue (metric : String)
  | unknownValue (field name : String)
  | invalidBytes (fault : Text.Base64.Fault)
  | malformedRecord (fault : Json.Fault)
  | malformedMetric (fault : Json.Fault)
  | malformedBody (fault : Json.Fault)
  | malformedMessage
  | malformedGzip (fault : Compression.Gzip.Fault)
  deriving DecidableEq, Repr

/-- What is wrong with a query; the error also holds the part of the query where it shows. -/
inductive QueryFault where
  | emptyQuery
  | functionNameMissing
  | functionNameInvalid
  | parenthesisNotClosed
  | aggregationWithoutArgument
  | aggregationNested
  | inputAfterCall
  | callNested
  | groupingExpected
  | groupingNotOpened
  | inputAfterGrouping
  | labelNameInvalid
  | bracketNotOpened
  | bracketNotClosed
  | rangeNotPositive
  | braceNotOpened
  | braceNotClosed
  | inputAfterSelector
  | metricNameRequired
  | metricNameInvalid
  | labelValueExpected
  | matcherUnsupported
  | labelDuplicate
  | quoteNotEscaped
  | escapeDangling
  | valueNotTerminated
  | durationEmpty
  | durationTooLong
  | durationInvalid (fault : Duration.Fault)
  | argumentRefused
  | argumentRequired
  | rangeRequired
  | rangeRefused
  | aggregationOfNonInstant
  deriving DecidableEq, Repr

/-- What is known but not supported. -/
inductive UnsupportedFault where
  | function (name : String)
  | aggregation (name : String)
  | functionWithoutRange (name : String)
  | contentEncoding (name : String)
  | queryLanguage (name : String)
  deriving DecidableEq, Repr

/-- Why records cannot be stored, or what is stored cannot be read. -/
inductive StorageFault where
  | spanRefused (constraint : String)
  | attributesUnreadable (fault : Json.Fault)
  | badStatus (text : String)
  deriving DecidableEq, Repr

/-- What fails inside, through no fault of a client. -/
inductive InternalFault where
  | queryTaskFailed
  | writerClosed
  | other (reason : String)
  deriving DecidableEq, Repr

/-! ## Errors -/

/-- An error: its family, with the cause. -/
inductive Error where
  | invalidArgument (fault : ArgumentFault)
  | configuration (fault : ConfigFault)
  | decode (fault : DecodeFault)
  | storage (fault : StorageFault)
  | query (fault : QueryFault) (fragment : String)
  | unsupportedFunction (name : String)
  | unsupported (fault : UnsupportedFault)
  | evaluation (metric : String) (cause : Error)
  | cancelled
  | io (reason : String)
  | internal (fault : InternalFault)
  /-- The result of date arithmetic, or of the arithmetic of durations, cannot be represented. -/
  | beyondRange
  deriving DecidableEq, Repr

/-! ## Wording -/

/-- The cause in words. -/
def ArgumentFault.message : ArgumentFault → String
  | .notATime text => "expected RFC3339 time or duration, got " ++ text
  | .durationTooLong =>
    "duration out of range: Source duration value is out of range for the target type"
  | .unrepresentable t => "timestamp not representable in nanoseconds: " ++ t.display
  | .windowReversed start stop => "start " ++ start.display ++ " is after end " ++ stop.display
  | .stepNotPositive => "step must be positive"
  | .queryRequired => "query is required"
  | .metricRequired => "metric is required"
  | .unknownStatus text => "unknown status code: " ++ text

@[inherit_doc ArgumentFault.message]
def VariableFault.message : VariableFault → String
  | .notBoolean => "provided string was not `true` or `false`"
  | .notInteger fault => fault.message

@[inherit_doc ArgumentFault.message]
def FileFault.message : FileFault → String
  | .malformed fault => fault.message
  | .unknownName name => "unknown name: " ++ name
  | .wrongValue name => "wrong kind of value: " ++ name

@[inherit_doc ArgumentFault.message]
def ConfigFault.message : ConfigFault → String
  | .fileNotFound path => "config file not found: " ++ path
  | .fileUnreadable path reason => "failed reading " ++ path ++ ": " ++ reason
  | .badFile path fault => "failed parsing " ++ path ++ ": " ++ fault.message
  | .badVariable name fault => "bad " ++ name ++ " in environment: " ++ fault.message
  | .badDuration field source fault value =>
    "bad " ++ field ++ " in " ++ source ++ ": " ++ fault.message ++ " (value=" ++ value ++ ")"
  | .badLogFormat source name =>
    "bad log_format in " ++ source ++ ": configuration error: unknown log format: " ++ name
  | .unknownLogFormat name => "unknown log format: " ++ name
  | .belowOne field => field ++ " must be at least 1"
  | .notPositive field => field ++ " must be positive"

@[inherit_doc ArgumentFault.message]
def DecodeFault.message : DecodeFault → String
  | .oddHex text => "hex id has odd length: " ++ text
  | .invalidHex text => "invalid hex id: " ++ text
  | .inField field fault => field ++ ": decode error: " ++ fault.message
  | .timestampOutOfRange nanos => "timestamp out of range: " ++ toString nanos
  | .emptyTraceId => "span has an empty trace id"
  | .emptySpanId => "span has an empty span id"
  | .emptyMetricName => "metric has an empty name"
  | .metricWithoutData name => "metric " ++ name ++ " has no data"
  | .pointWithoutValue metric => "metric " ++ metric ++ " data point has no value"
  | .unknownValue field name => "unknown " ++ field ++ " value: " ++ name
  | .invalidBytes fault => "invalid bytesValue: " ++ fault.message
  | .malformedRecord fault => "malformed record: " ++ fault.message
  | .malformedMetric fault => "malformed metric: " ++ fault.message
  | .malformedBody fault => "invalid OTLP/JSON body: " ++ fault.message
  | .malformedMessage => "invalid protobuf body: malformed message"
  | .malformedGzip fault => "invalid gzip body: " ++ fault.message

@[inherit_doc ArgumentFault.message]
def QueryFault.message : QueryFault → String
  | .emptyQuery => "empty query"
  | .functionNameMissing => "missing function name"
  | .functionNameInvalid => "invalid function name"
  | .parenthesisNotClosed => "missing closing parenthesis"
  | .aggregationWithoutArgument => "aggregation requires an argument"
  | .aggregationNested => "nested aggregations are not supported"
  | .inputAfterCall => "unexpected input after function call"
  | .callNested => "nested function calls are not supported"
  | .groupingExpected => "expected `by (...)` or `without (...)`"
  | .groupingNotOpened => "expected `(` after grouping keyword"
  | .inputAfterGrouping => "unexpected input after grouping"
  | .labelNameInvalid => "invalid label name"
  | .bracketNotOpened => "missing opening bracket"
  | .bracketNotClosed => "missing closing bracket"
  | .rangeNotPositive => "range must be positive"
  | .braceNotOpened => "missing opening brace"
  | .braceNotClosed => "missing closing brace"
  | .inputAfterSelector => "unexpected input after label selector"
  | .metricNameRequired => "metric name is required"
  | .metricNameInvalid => "invalid metric name"
  | .labelValueExpected => "expected key=\"value\""
  | .matcherUnsupported => "only exact-match (=) label matchers are supported"
  | .labelDuplicate => "duplicate label"
  | .quoteNotEscaped => "unescaped quote in label value"
  | .escapeDangling => "dangling escape in label value"
  | .valueNotTerminated => "unterminated quoted label value"
  | .durationEmpty => "empty duration"
  | .durationTooLong => "duration out of range"
  | .durationInvalid fault => "invalid duration: " ++ fault.message
  | .argumentRefused => "takes no arguments"
  | .argumentRequired => "requires an argument"
  | .rangeRequired => "expects a range vector argument, e.g. metric[5m]"
  | .rangeRefused => "expects an instant vector argument"
  | .aggregationOfNonInstant => "can only aggregate an instant vector"

@[inherit_doc ArgumentFault.message]
def UnsupportedFault.message : UnsupportedFault → String
  | .function name => "function " ++ name
  | .aggregation name => "aggregation " ++ name
  | .functionWithoutRange name => name ++ " without a range selector"
  | .contentEncoding name => "content encoding " ++ name
  | .queryLanguage name => name ++ " queries"

@[inherit_doc ArgumentFault.message]
def StorageFault.message : StorageFault → String
  | .spanRefused constraint => "insert span failed: " ++ constraint
  | .attributesUnreadable fault => "stored attributes are not valid json: " ++ fault.message
  | .badStatus text =>
    "bad stored status: invalid argument: " ++ (ArgumentFault.unknownStatus text).message

@[inherit_doc ArgumentFault.message]
def InternalFault.message : InternalFault → String
  | .queryTaskFailed => "query task failed: date out of range"
  | .writerClosed => "write pipeline closed"
  | .other reason => reason

namespace Error

/-- The error in words: its family, then the cause. -/
def message : Error → String
  | .invalidArgument fault => "invalid argument: " ++ fault.message
  | .configuration fault => "configuration error: " ++ fault.message
  | .decode fault => "decode error: " ++ fault.message
  | .storage fault => "storage error: " ++ fault.message
  | .query fault fragment => "query parse error: " ++ fault.message ++ " (at `" ++ fragment ++ "`)"
  | .unsupportedFunction name => "unsupported function: " ++ name
  | .unsupported fault => "unsupported operation: " ++ fault.message
  | .evaluation metric cause =>
    "evaluation error: fetch " ++ metric ++ " failed: " ++ cause.message
  | .cancelled => "query cancelled"
  | .io reason => "io error: " ++ reason
  | .internal fault => "internal error: " ++ fault.message
  | .beyondRange => "arithmetic left the representable range"

/-- Whether the error is the client's own doing. -/
def isClientFault : Error → Bool
  | .invalidArgument _ | .query _ _ | .unsupportedFunction _ | .unsupported _ => true
  | _ => false

end Error

end Telemetry
