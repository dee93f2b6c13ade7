import Telemetry.Decimal.Layout
import Telemetry.Json.Fault

/-!
JSON values, and their compact text.

A value keeps the members of its objects in order and keeps repeated ones. A number is whole or a
double. Besides the values there is one mark, `unreadable`, for a part of a text that is well formed
and yet has no value: a number too large for a double, a string with half of a surrogate pair or
with bytes that are no UTF-8. Whoever skips such a part need not care; whoever wants it has to
refuse it.
-/

set_option autoImplicit false

namespace Telemetry

/-! ## Values -/

/-- A number: whole as far as 64 bits go, else a double. -/
inductive Json.Number where
  | whole (n : Int)
  | real (x : Float)
  deriving Repr, Inhabited

/-- A JSON value, or the mark of a part without a value. -/
inductive Json where
  | null
  | bool (b : Bool)
  | number (n : Json.Number)
  | string (s : String)
  | array (items : List Json)
  | object (members : List (String × Json))
  | unreadable
  deriving Repr, Inhabited

namespace Json

/-- A whole number as a value. -/
def ofInt (n : Int) : Json := .number (.whole n)

/-- A natural number as a value. -/
def ofNat (n : Nat) : Json := .number (.whole n)

/-- A double as a value. -/
def ofFloat (x : Float) : Json := .number (.real x)

/-- A text or nothing as a value. -/
def ofText? : Option String → Json
  | none => .null
  | some s => .string s

/-- A number as a double. -/
def Number.toFloat : Number → Float
  | .whole n =>
    if 0 ≤ n then (UInt64.ofNat n.toNat).toFloat else -(UInt64.ofNat n.natAbs).toFloat
  | .real x => x

/-! ## Text -/

/-- A character as it stands in a string. -/
def escape (c : Char) : String :=
  if c = '"' then "\\\""
  else if c = '\\' then "\\\\"
  else if c = '\n' then "\\n"
  else if c = '\r' then "\\r"
  else if c = '\t' then "\\t"
  else if c = '\x08' then "\\b"
  else if c = '\x0c' then "\\f"
  else if c.toNat < 0x20 then
    "\\u00" ++ String.ofList [Nat.digitChar (c.toNat / 16), Nat.digitChar (c.toNat % 16)]
  else String.ofList [c]

/-- A string in quotes. -/
def quote (s : String) : String :=
  s.toList.foldl (fun text c => text ++ escape c) "\"" ++ "\""

/-- The text of a number; a double that is not finite has none and is written as nothing. -/
def Number.render : Number → String
  | .whole n => toString n
  | .real x => (Decimal.document? x).getD "null"

mutual

/-- The compact text of a value. -/
def render : Json → String
  | .null | .unreadable => "null"
  | .bool b => if b then "true" else "false"
  | .number n => n.render
  | .string s => quote s
  | .array items => "[" ++ renderItems items ++ "]"
  | .object members => "\x7b" ++ renderMembers members ++ "\x7d"

/-- The items of an array with commas between them. -/
def renderItems : List Json → String
  | [] => ""
  | [item] => render item
  | item :: items => render item ++ "," ++ renderItems items

/-- The members of an object with commas between them. -/
def renderMembers : List (String × Json) → String
  | [] => ""
  | [(name, value)] => quote name ++ ":" ++ render value
  | (name, value) :: members => quote name ++ ":" ++ render value ++ "," ++ renderMembers members

end

/-! ## Indented text -/

/-- The indentation of a level. -/
def indent (level : Nat) : String := String.ofList (List.replicate (2 * level) ' ')

mutual

/-- The text of a value over several lines, each level indented by two blanks. -/
def renderIndented (level : Nat) : Json → String
  | .array [] => "[]"
  | .object [] => "\x7b\x7d"
  | .array items => "[\n" ++ renderItemsIndented (level + 1) items ++ "\n" ++ indent level ++ "]"
  | .object members =>
    "\x7b\n" ++ renderMembersIndented (level + 1) members ++ "\n" ++ indent level ++ "\x7d"
  | .null | .unreadable => "null"
  | .bool b => if b then "true" else "false"
  | .number n => n.render
  | .string s => quote s

/-- The items of an array, each on lines of its own. -/
def renderItemsIndented (level : Nat) : List Json → String
  | [] => ""
  | [item] => indent level ++ renderIndented level item
  | item :: items =>
    indent level ++ renderIndented level item ++ ",\n" ++ renderItemsIndented level items

/-- The members of an object, each on lines of its own. -/
def renderMembersIndented (level : Nat) : List (String × Json) → String
  | [] => ""
  | [(name, value)] => indent level ++ quote name ++ ": " ++ renderIndented level value
  | (name, value) :: members =>
    indent level ++ quote name ++ ": " ++ renderIndented level value ++ ",\n" ++
      renderMembersIndented level members

end

/-! ## Settling -/

/-- Puts a member at its place by name, instead of an earlier one of the name. -/
def putMember (name : String) (value : Json) : List (String × Json) → List (String × Json)
  | [] => [(name, value)]
  | (n, v) :: members =>
    if name < n then (name, value) :: (n, v) :: members
    else if name = n then (name, value) :: members
    else (n, v) :: putMember name value members

mutual

/-- Reads a value as it stands: arrays and objects nested no more than `levels` deep, every part
with a value, of repeated members the last one, and members in the order of their names. -/
def settle (levels : Nat) : Json → Except Fault Json
  | .array items =>
    if levels = 0 then .error .tooDeep else (settleItems (levels - 1) items).map .array
  | .object members =>
    if levels = 0 then .error .tooDeep
    else (settleMembers (levels - 1) [] members).map .object
  | .unreadable => .error .unreadable
  | .null => .ok .null
  | .bool b => .ok (.bool b)
  | .number n => .ok (.number n)
  | .string s => .ok (.string s)

/-- Settles the items of an array. -/
def settleItems (levels : Nat) : List Json → Except Fault (List Json)
  | [] => .ok []
  | item :: items => do
    let item ← settle levels item
    let items ← settleItems levels items
    return item :: items

/-- Settles members onto those settled before. -/
def settleMembers (levels : Nat) (settled : List (String × Json)) :
    List (String × Json) → Except Fault (List (String × Json))
  | [] => .ok settled
  | (name, value) :: members => do
    let value ← settle levels value
    settleMembers levels (putMember name value settled) members

end

/-- The levels that a text may have. -/
def maxLevels : Nat := 127

end Json

end Telemetry
