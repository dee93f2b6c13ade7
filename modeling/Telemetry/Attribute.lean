import Telemetry.Json.Basic
import Telemetry.Labels

/-!
Attribute values, and the labels they become.

A value may be nested. As a label it is a text: scalars are written plainly, arrays and maps as
JSON, and nothing has no label at all.
-/

set_option autoImplicit false

namespace Telemetry

/-! ## Values -/

/-- A value of an attribute. The entries of a map may be repeated; the last one counts. -/
inductive AttributeValue where
  | null
  | bool (b : Bool)
  | int (n : Int64)
  | float (x : Float)
  | string (s : String)
  | array (values : List AttributeValue)
  | map (entries : List (String × AttributeValue))
  deriving Repr, Inhabited

namespace AttributeValue

/-! ## As JSON -/

/-- Puts members at their places by name, later ones instead of earlier ones. -/
def sortMembers (members : List (String × Json)) : List (String × Json) :=
  members.foldl (fun sorted m => Json.putMember m.1 m.2 sorted) []

mutual

/-- The value as JSON. A double that is not finite becomes the text of its label, and the entries of
a map stand in the order of their names. -/
def toJson : AttributeValue → Json
  | .null => .null
  | .bool b => .bool b
  | .int n => .ofInt n.toInt
  | .float x => if x.isFinite then .ofFloat x else .string (Decimal.label x)
  | .string s => .string s
  | .array values => .array (toJsonItems values)
  | .map entries => .object (sortMembers (toJsonMembers entries))

/-- The values of an array as JSON. -/
def toJsonItems : List AttributeValue → List Json
  | [] => []
  | v :: vs => toJson v :: toJsonItems vs

/-- The entries of a map as JSON. -/
def toJsonMembers : List (String × AttributeValue) → List (String × Json)
  | [] => []
  | (k, v) :: vs => (k, toJson v) :: toJsonMembers vs

end

/-! ## As a label -/

/-- The value as the text of a label. -/
def toLabel? : AttributeValue → Option String
  | .null => none
  | .bool b => some (if b then "true" else "false")
  | .int n => some (toString n.toInt)
  | .float x => some (Decimal.label x)
  | .string s => some s
  | .array values => some (toJson (.array values)).render
  | .map entries => some (toJson (.map entries)).render

end AttributeValue

/-- The labels of attributes; a later one replaces an earlier one of the same name, unless it is
nothing. -/
def Labels.ofAttributes (pairs : List (String × AttributeValue)) : Labels :=
  Dictionary.ofList (pairs.filterMap fun p => p.2.toLabel?.map fun text => (p.1, text))

end Telemetry
