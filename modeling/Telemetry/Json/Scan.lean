import Telemetry.Json.Reader

/-!
Records of scalars, read straight off a text.

A scan takes a value of a known type from the head of a text. Since it goes through the text once,
the first fault in the order of the text is the one reported, whether the text is not JSON there or
says something else than is wanted.
-/

set_option autoImplicit false

namespace Telemetry.Json

/-- Takes a value from the head of a text, and leaves the rest. -/
abbrev Scan (α : Type) := List UInt8 → Except Fault (α × List UInt8)

namespace Scan

variable {α σ : Type}

/-! ## Scalars -/

/-- A scalar that `take?` accepts. Where an array or an object opens, nothing more is looked at. -/
def scalar (wanted : String) (take? : Json → Option α) : Scan α := fun bs =>
  match Reader.skip bs with
  | 0x5B :: _ | 0x7B :: _ => .error (.unexpected wanted)
  | bs => do
    match ← Reader.scalar bs with
    | (.unreadable, _) => throw .unreadable
    | (v, rest) =>
      match take? v with
      | some a => return (a, rest)
      | none => throw (.unexpected wanted)

/-- A string. -/
def text : Scan String := scalar "a string" fun
  | .string s => some s
  | _ => none

/-- A signed number of 64 bits. -/
def signed64 : Scan Int := scalar "a whole number of 64 bits" fun
  | .number (.whole n) => if Text.Integer.fitsSigned64 n then some n else none
  | _ => none

/-- Null. -/
def null : Scan Unit := scalar "null" fun
  | .null => some ()
  | _ => none

/-- Null, or what a scan takes. A text that starts like null has to be it. -/
def optional (scan : Scan α) : Scan (Option α) := fun bs =>
  match Reader.skip bs with
  | 0x6E :: rest => do
    let ((), rest) ← null (0x6E :: rest)
    return (none, rest)
  | bs => do
    let (a, rest) ← scan bs
    return (some a, rest)

/-- A given byte between blanks. -/
def mark (b : UInt8) : Scan Unit := fun bs =>
  match Reader.skip bs with
  | [] => .error .unfinished
  | c :: rest => if b = c then .ok ((), rest) else .error (.malformed "unexpected character")

/-- One of several names, as a string or as an object with the name alone, bound to null. -/
def variant (names : List (String × α)) : Scan α := fun bs => do
  let named (bs : List UInt8) : Except Fault (α × List UInt8) := do
    let (s, rest) ← text bs
    match names.lookup s with
    | some a => return (a, rest)
    | none => throw (.unknownName s)
  match Reader.skip bs with
  | [] => throw .unfinished
  | 0x22 :: rest => named (0x22 :: rest)
  | 0x7B :: rest =>
    let (a, rest) ← named rest
    let ((), rest) ← mark 0x3A rest
    let ((), rest) ← null rest
    let ((), rest) ← mark 0x7D rest
    return (a, rest)
  | _ => throw (.malformed "expected a name")

/-- Any value, which is only checked to be one. -/
def ignored : Scan Unit := fun bs => do
  let (_, rest) ← Reader.value (bs.length + 1) bs
  return ((), rest)

/-! ## Records -/

/-- A member of a record: its names, whether it has to be there, and how its value is taken. -/
structure Member (σ : Type) where
  name : String
  aliases : List String := []
  needed : Bool := false
  scan : σ → Scan σ

/-- Whether a name is one of a member's. -/
def Member.isNamed (m : Member σ) (name : String) : Bool :=
  m.name == name || m.aliases.contains name

/-- Takes the members of an object up to its closing brace, from one on. -/
def members (known : List (Member σ)) :
    Nat → List String → σ → List UInt8 → Except Fault (List String × σ × List UInt8)
  | 0, _, _, _ => .error .unfinished
  | fuel + 1, seen, a, bs => do
    let (name, rest) ←
      match Reader.skip bs with
      | [] => throw .unfinished
      | 0x22 :: rest => text (0x22 :: rest)
      | _ => throw (.malformed "a name must be a string")
    let (seen, a, rest) ←
      match known.find? (·.isNamed name) with
      | none => do
        let ((), rest) ← mark 0x3A rest
        let ((), rest) ← ignored rest
        pure (seen, a, rest)
      | some f => do
        if seen.contains f.name then throw (.duplicate f.name)
        let ((), rest) ← mark 0x3A rest
        let (a, rest) ← f.scan a rest
        pure (f.name :: seen, a, rest)
    match Reader.skip rest with
    | 0x2C :: rest => members known fuel seen a rest
    | 0x7D :: rest => return (seen, a, rest)
    | [] => throw .unfinished
    | _ => throw (.malformed "expected a comma or a brace")

/-- Takes a record from an object, whose members may come in any order. -/
def object (known : List (Member σ)) (start : σ) : Scan σ := fun bs => do
  let (seen, a, rest) ←
    match Reader.skip bs with
    | 0x7D :: rest => pure ([], start, rest)
    | bs => members known (bs.length + 1) [] start bs
  match known.find? fun f => f.needed && !seen.contains f.name with
  | some f => throw (.missing f.name)
  | none => return (a, rest)

/-- Takes the items of an array as the members of a record, in their order. What is not there is
left out. -/
def items : List (Member σ) → Bool → σ → Scan σ
  | [], _, a, bs => do
    let ((), rest) ← mark 0x5D bs
    return (a, rest)
  | f :: known, first, a, bs =>
    match Reader.skip bs with
    | [] => .error .unfinished
    | 0x5D :: rest =>
      if f.needed then .error (.missing f.name) else items known first a (0x5D :: rest)
    | bs => do
      let ((), rest) ← if first then pure ((), bs) else mark 0x2C bs
      let (a, rest) ← f.scan a rest
      items known false a rest

/-- Takes a record from an object or from an array. -/
def record (known : List (Member σ)) (start : σ) : Scan σ := fun bs =>
  match Reader.skip bs with
  | 0x7B :: rest => object known start rest
  | 0x5B :: rest => items known true start rest
  | bs => scalar "a record" (fun _ => none) bs

/-- Takes a value from a whole text, which may have blanks around it. -/
def whole (scan : Scan α) (bs : List UInt8) : Except Fault α := do
  let (a, rest) ← scan bs
  if (Reader.skip rest).isEmpty then return a else throw .trailing

end Scan

end Telemetry.Json
