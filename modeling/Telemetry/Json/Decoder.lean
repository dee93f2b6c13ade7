import Telemetry.Json.Basic

/-!
Reading JSON values as something else.

A decoder gets the number of levels that may still be opened and a value. Records are read from
objects, whose members may come in any order and may be unknown but not repeated, and also from
arrays, whose items are then the members in their declared order. The members are read in the order
in which they stand, so the first fault in that order is the one reported.
-/

set_option autoImplicit false

namespace Telemetry.Json

/-- A reading of values, given the levels that may still be opened. -/
abbrev Decoder (α : Type) := Nat → Json → Except Fault α

namespace Decoder

variable {α : Type}

/-! ## Scalars -/

/-- A string. -/
def text : Decoder String
  | _, .string s => .ok s
  | _, .unreadable => .error .unreadable
  | _, _ => .error (.unexpected "a string")

/-- A truth value. -/
def bool : Decoder Bool
  | _, .bool b => .ok b
  | _, .unreadable => .error .unreadable
  | _, _ => .error (.unexpected "a boolean")

/-- A number, as a double. -/
def double : Decoder Float
  | _, .number n => .ok n.toFloat
  | _, .unreadable => .error .unreadable
  | _, _ => .error (.unexpected "a number")

/-- A whole number in a range. -/
def integer (least greatest : Int) : Decoder Int
  | _, .number (.whole n) =>
    if least ≤ n ∧ n ≤ greatest then .ok n else .error (.unexpected "a smaller number")
  | _, .unreadable => .error .unreadable
  | _, _ => .error (.unexpected "a whole number")

/-- An unsigned number of 32 bits. -/
def unsigned32 : Decoder UInt32 := fun levels v => do
  let n ← integer 0 Text.Integer.maxUnsigned32 levels v
  return UInt32.ofNat n.toNat

/-- A signed number of 32 bits. -/
def signed32 : Decoder Int32 := fun levels v => do
  let n ← integer (-0x80000000) Text.Integer.maxSigned32 levels v
  return Int32.ofInt n

/-- A signed number of 64 bits. -/
def signed64 : Decoder Int64 := fun levels v => do
  let n ← integer (-0x8000000000000000) Text.Integer.maxSigned64 levels v
  return Int64.ofInt n

/-- A whole number of a range, as a number or as the decimal text that `ofText` reads. -/
def flexible (least greatest : Int) (ofText : List Char → Except Text.Integer.Fault Int) :
    Decoder Int
  | _, .number (.whole n) =>
    if least ≤ n ∧ n ≤ greatest then .ok n else .error (.integerOutOfRange (toString n))
  | _, .string s =>
    match ofText s.toList with
    | .ok n => .ok n
    | .error _ => .error (.invalidInteger s)
  | _, .unreadable => .error .unreadable
  | _, _ => .error (.unexpected "an integer or a string containing an integer")

/-- An unsigned number of 64 bits, as a number or as a text. -/
def flexibleUnsigned64 : Decoder UInt64 := fun levels v => do
  let n ← flexible 0 Text.Integer.maxUnsigned64
    (fun cs => (Text.Integer.unsigned Text.Integer.maxUnsigned64 cs).map Int.ofNat) levels v
  return UInt64.ofNat n.toNat

/-- A signed number of 64 bits, as a number or as a text. -/
def flexibleSigned64 : Decoder Int64 := fun levels v => do
  let n ← flexible (-0x8000000000000000) Text.Integer.maxSigned64
    (Text.Integer.signed Text.Integer.maxSigned64) levels v
  return Int64.ofInt n

/-! ## Structures -/

/-- Nothing, or what a decoder reads. -/
def optional (d : Decoder α) : Decoder (Option α)
  | _, .null => .ok none
  | levels, v => (d levels v).map some

/-- An array. -/
def list (d : Decoder α) : Decoder (List α)
  | 0, .array _ => .error .tooDeep
  | levels + 1, .array items => items.mapM (d levels)
  | _, .unreadable => .error .unreadable
  | _, _ => .error (.unexpected "an array")

/-- Any value, settled. -/
def plain : Decoder Json := settle

/-- The members among those of the given names; a repeated one is refused. -/
def known (names : List String) : List (String × Json) → List String →
    Except Fault (List (String × Json))
  | [], _ => .ok []
  | (name, value) :: members, seen =>
    if !names.contains name then known names members seen
    else if seen.contains name then .error (.duplicate name)
    else do
      let rest ← known names members (name :: seen)
      return (name, value) :: rest

/-- A record with members of the given names, of which the form as an array needs the first
`least`. Each member found is handed to `set`, in order. -/
def record (names : List String) (least : Nat) (start : α)
    (set : Nat → α → String → Json → Except Fault α) : Decoder α
  | 0, .object _ | 0, .array _ => .error .tooDeep
  | levels + 1, .object members => do
    let members ← known names members []
    members.foldlM (fun a m => set levels a m.1 m.2) start
  | levels + 1, .array items => do
    let a ← (names.zip items).foldlM (fun a m => set levels a m.1 m.2) start
    if items.length < least then throw (.unexpected "more items")
    if names.length < items.length then throw (.unexpected "fewer items")
    return a
  | _, .unreadable => .error .unreadable
  | _, _ => .error (.unexpected "a record")

/-- A dictionary of texts; of repeated names the last one counts. -/
def dictionary (d : Decoder α) : Decoder (List (String × α))
  | 0, .object _ => .error .tooDeep
  | levels + 1, .object members => members.mapM fun m => do return (m.1, ← d levels m.2)
  | _, .unreadable => .error .unreadable
  | _, _ => .error (.unexpected "an object")

/-- One of several names. -/
def variant (names : List (String × α)) : Decoder α
  | _, .string s =>
    match names.lookup s with
    | some a => .ok a
    | none => .error (.unknownName s)
  | _, .object [(s, .null)] =>
    match names.lookup s with
    | some a => .ok a
    | none => .error (.unknownName s)
  | _, .unreadable => .error .unreadable
  | _, _ => .error (.unexpected "a name")

end Decoder

end Telemetry.Json
