import Telemetry.Text.Utf8

/-!
The wire format of protocol buffers.

A message is a sequence of fields, each with a number and a payload. A payload is a variable-length
integer, four or eight bytes, a counted sequence of bytes, or a group. Groups occur only where a
message has to skip what it does not know; of them only the depth is kept.
-/

set_option autoImplicit false

namespace Telemetry.Otlp.Wire

/-! ## Fields -/

/-- What a field carries. -/
inductive Payload where
  | varint (n : UInt64)
  | fixed64 (n : UInt64)
  | fixed32 (n : UInt32)
  | bytes (bs : List UInt8)
  /-- A group that takes so many levels to skip. -/
  | group (levels : Nat)
  deriving Repr

/-- A field of a message. -/
structure Field where
  number : Nat
  payload : Payload
  deriving Repr

/-! ## Reading -/

/-- Reads a variable-length integer of at most ten bytes, of which the last may only be 0 or 1;
`shift` is the weight of the next seven bits. -/
def varintFrom : Nat → Nat → Nat → List UInt8 → Option (Nat × List UInt8)
  | 0, _, _, _ => none
  | _ + 1, _, _, [] => none
  | left + 1, value, weight, b :: bs =>
    let value := value + b.toNat % 128 * weight
    if b < 128 then if left = 0 ∧ 1 < b then none else some (value, bs)
    else varintFrom left value (weight * 128) bs

/-- Reads a variable-length integer. -/
def varint (bs : List UInt8) : Option (Nat × List UInt8) := varintFrom 10 0 1 bs

/-- Reads so many bytes. -/
def take? (n : Nat) (bs : List UInt8) : Option (List UInt8 × List UInt8) :=
  if n ≤ bs.length then some (bs.take n, bs.drop n) else none

/-- The number whose bytes these are, the lowest first. -/
def littleEndian : List UInt8 → Nat
  | [] => 0
  | b :: bs => b.toNat + 256 * littleEndian bs

/-- Reads the head of a field: its number, which is at least one, and the kind of its payload. -/
def key (bs : List UInt8) : Option (Nat × Nat × List UInt8) := do
  let (n, rest) ← varint bs
  if n < 0x100000000 ∧ 8 ≤ n then some (n / 8, n % 8, rest) else none

/-- The levels that it takes to skip a field. -/
def Payload.levels : Payload → Nat
  | .group levels => levels
  | _ => 1

/-- Reads fields up to the end of the bytes, or up to the end of the group of the given number. Each
field takes a byte, so the length of the bytes is fuel enough. -/
def fieldsUntil : Nat → Option Nat → List Field → List UInt8 → Option (List Field × List UInt8)
  | _, none, acc, [] => some (acc.reverse, [])
  | 0, _, _, _ => none
  | fuel + 1, group, acc, bs => do
    let (number, kind, rest) ← key bs
    match kind with
    | 0 =>
      let (n, rest) ← varint rest
      fieldsUntil fuel group (⟨number, .varint (UInt64.ofNat n)⟩ :: acc) rest
    | 1 =>
      let (ds, rest) ← take? 8 rest
      fieldsUntil fuel group (⟨number, .fixed64 (UInt64.ofNat (littleEndian ds))⟩ :: acc) rest
    | 2 =>
      let (n, rest) ← varint rest
      let (ds, rest) ← take? n rest
      fieldsUntil fuel group (⟨number, .bytes ds⟩ :: acc) rest
    | 3 =>
      let (inner, rest) ← fieldsUntil fuel (some number) [] rest
      let levels := inner.foldl (fun n f => max n (f.payload.levels + 1)) 1
      fieldsUntil fuel group (⟨number, .group levels⟩ :: acc) rest
    | 4 => if group = some number then some (acc.reverse, rest) else none
    | 5 =>
      let (ds, rest) ← take? 4 rest
      fieldsUntil fuel group (⟨number, .fixed32 (UInt32.ofNat (littleEndian ds))⟩ :: acc) rest
    | _ => none

/-- The fields of a message. -/
def fields (bs : List UInt8) : Option (List Field) :=
  (fieldsUntil bs.length none [] bs).map (·.1)

/-! ## Payloads of a known type -/

namespace Payload

/-- An unsigned number of 64 bits. -/
def uint64? : Payload → Option UInt64
  | .varint n => some n
  | _ => none

/-- An unsigned number of 32 bits; higher bits are dropped. -/
def uint32? (p : Payload) : Option UInt32 := p.uint64?.map UInt64.toUInt32

/-- A signed number of 32 bits, or a number of an enumeration. -/
def int32? (p : Payload) : Option Int32 := p.uint64?.map fun n => n.toUInt32.toInt32

/-- A signed number of 64 bits. -/
def int64? (p : Payload) : Option Int64 := p.uint64?.map UInt64.toInt64

/-- A signed number of 32 bits whose lowest bit is its sign. -/
def sint32? (p : Payload) : Option Int32 :=
  p.uint64?.map fun n =>
    let n := n.toUInt32.toNat
    Int32.ofInt (if n % 2 = 0 then n / 2 else -(n / 2) - 1)

/-- A truth value. -/
def bool? (p : Payload) : Option Bool := p.uint64?.map fun n => n ≠ 0

/-- A number of eight bytes. -/
def fixed64? : Payload → Option UInt64
  | .fixed64 n => some n
  | _ => none

/-- A number of four bytes. -/
def fixed32? : Payload → Option UInt32
  | .fixed32 n => some n
  | _ => none

/-- A double. -/
def double? (p : Payload) : Option Float := p.fixed64?.map Float.ofBits

/-- A sequence of bytes. -/
def bytes? : Payload → Option (List UInt8)
  | .bytes bs => some bs
  | _ => none

/-- A text in UTF-8. -/
def string? (p : Payload) : Option String := do
  let bs ← p.bytes?
  let cs ← Text.Utf8.decode? bs
  return String.ofList cs

end Payload

/-- The numbers of eight bytes each that a sequence of bytes consists of. -/
def packed64 (bs : List UInt8) : Option (List UInt64) :=
  match bs with
  | [] => some []
  | a :: b :: c :: d :: e :: f :: g :: h :: rest => do
    let ns ← packed64 rest
    return UInt64.ofNat (littleEndian [a, b, c, d, e, f, g, h]) :: ns
  | _ => none

/-- Repeated numbers of eight bytes: packed into one field, or one by one. -/
def Payload.repeated64? : Payload → Option (List UInt64)
  | .fixed64 n => some [n]
  | .bytes bs => packed64 bs
  | _ => none

/-- Reads the variable-length integers that a sequence of bytes consists of. -/
def packedVarints : Nat → List UInt8 → Option (List UInt64)
  | _, [] => some []
  | 0, _ => none
  | fuel + 1, bs => do
    let (n, rest) ← varint bs
    let ns ← packedVarints fuel rest
    return UInt64.ofNat n :: ns

/-- Repeated variable-length integers: packed into one field, or one by one. -/
def Payload.repeatedVarint? : Payload → Option (List UInt64)
  | .varint n => some [n]
  | .bytes bs => packedVarints bs.length bs
  | _ => none

/-! ## Messages -/

/-- How a field changes what has been read of a message, given the levels that may still be opened
in it. -/
abbrev Step (α : Type) := Nat → α → Field → Option α

/-- The levels that a message may have below itself. -/
def maxLevels : Nat := 100

/-- Skips a field that the message does not know. -/
def skip {α : Type} (levels : Nat) (a : α) (f : Field) : Option α :=
  if f.payload.levels ≤ levels then some a else none

/-- Reads the fields of a message onto what has been read of it. -/
def merge {α : Type} (step : Step α) (levels : Nat) (start : α) (bs : List UInt8) : Option α := do
  (← fields bs).foldlM (step levels) start

/-- Reads a message inside another one. -/
def nested {α : Type} (step : Step α) (levels : Nat) (start : α) (p : Payload) : Option α :=
  match levels with
  | 0 => none
  | levels + 1 => do merge step levels start (← p.bytes?)

/-- A step for messages of which nothing is kept: each field is only checked, by what `check` says
for its number, and skipped where it says nothing. -/
def checking (check : Nat → Nat → Option (Payload → Bool)) : Step Unit := fun levels _ f =>
  match check levels f.number with
  | some ok => if ok f.payload then some () else none
  | none => skip levels () f

end Telemetry.Otlp.Wire
