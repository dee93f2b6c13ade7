import Telemetry.Text.Integer

/-!
What can be wrong with a JSON text, or with what it says.

A text may not be JSON at all, or it may be JSON that does not say what is wanted. The two are kept
apart, since a service answers them differently.
-/

set_option autoImplicit false

namespace Telemetry.Json

/-- Why a JSON text is refused. -/
inductive Fault where
  /-- The text ends too early. -/
  | unfinished
  /-- The text is not JSON, for the given reason. -/
  | malformed (reason : String)
  /-- Arrays and objects are nested too deeply. -/
  | tooDeep
  /-- A number or a string is well formed but has no value. -/
  | unreadable
  /-- Something stands behind the value. -/
  | trailing
  /-- A value of another kind is wanted. -/
  | unexpected (wanted : String)
  /-- A member that has to be there is missing. -/
  | missing (name : String)
  /-- A member stands there twice. -/
  | duplicate (name : String)
  /-- A name is none of those that are known. -/
  | unknownName (name : String)
  /-- A whole number does not fit its word. -/
  | integerOutOfRange (text : String)
  /-- A string does not hold a whole number that fits its word. -/
  | invalidInteger (text : String)
  deriving DecidableEq, Repr

/-- The fault in words. -/
def Fault.message : Fault → String
  | .unfinished => "unexpected end of text"
  | .malformed reason => reason
  | .tooDeep => "too many levels"
  | .unreadable => "number or string without a value"
  | .trailing => "unexpected text behind the value"
  | .unexpected wanted => "expected " ++ wanted
  | .missing name => "missing member " ++ name
  | .duplicate name => "duplicate member " ++ name
  | .unknownName name => "unknown name " ++ name
  | .integerOutOfRange text => "integer out of range: " ++ text
  | .invalidInteger text => "invalid integer string: " ++ text

/-- Whether the text itself is at fault, and not what it says. -/
def Fault.isTextual : Fault → Bool
  | .unfinished | .malformed _ | .tooDeep | .unreadable | .trailing => true
  | _ => false

end Telemetry.Json
