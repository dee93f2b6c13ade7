/-!
Bytes in the standard base-64 alphabet, with padding.

Four symbols carry three bytes. The last group may carry one or two bytes; it is then filled up
with `=`, and the bits that no byte uses are zero. Reading accepts exactly that and names the place
of the first fault.
-/

set_option autoImplicit false

namespace Telemetry.Text.Base64

/-! ## The alphabet -/

/-- The padding sign. -/
def pad : UInt8 := 61

/-- The symbol for a value below 64. -/
def symbol (n : Nat) : UInt8 :=
  if n < 26 then (65 + n).toUInt8
  else if n < 52 then (71 + n).toUInt8
  else if n < 62 then (n - 4).toUInt8
  else if n = 62 then 43
  else 47

/-- The value of a symbol. -/
def value? (b : UInt8) : Option Nat :=
  let n := b.toNat
  if 65 ≤ n ∧ n ≤ 90 then some (n - 65)
  else if 97 ≤ n ∧ n ≤ 122 then some (n - 71)
  else if 48 ≤ n ∧ n ≤ 57 then some (n + 4)
  else if n = 43 then some 62
  else if n = 47 then some 63
  else none

/-! ## Writing -/

/-- The symbols of a byte sequence. -/
def encode : List UInt8 → List UInt8
  | [] => []
  | [a] =>
    let n := a.toNat * 16
    [symbol (n / 64), symbol (n % 64), pad, pad]
  | [a, b] =>
    let n := (a.toNat * 256 + b.toNat) * 4
    [symbol (n / 4096), symbol (n / 64 % 64), symbol (n % 64), pad]
  | a :: b :: c :: rest =>
    let n := (a.toNat * 256 + b.toNat) * 256 + c.toNat
    symbol (n / 262144) :: symbol (n / 4096 % 64) :: symbol (n / 64 % 64) :: symbol (n % 64) ::
      encode rest

/-! ## Reading -/

/-- Why a sequence of symbols does not stand for bytes. -/
inductive Fault where
  | symbol (byte : UInt8) (offset : Nat)
  | length (count : Nat)
  | lastSymbol (byte : UInt8) (offset : Nat)
  | padding
  deriving DecidableEq, Repr

/-- The fault in words. -/
def Fault.message : Fault → String
  | .symbol b i => s!"Invalid symbol {b.toNat}, offset {i}."
  | .length n => s!"Invalid input length: {n}"
  | .lastSymbol b i => s!"Invalid last symbol {b.toNat}, offset {i}."
  | .padding => "Invalid padding"

/-- The three bytes of a full group of values. -/
def bytesOfGroup (a b c d : Nat) : List UInt8 :=
  let n := ((a * 64 + b) * 64 + c) * 64 + d
  [(n / 65536).toUInt8, (n / 256 % 256).toUInt8, (n % 256).toUInt8]

/-- The values of the symbols before the padding of the last group, which starts at `offset` and
of which `index` symbols have been read; `padding` counts the padding signs so far. -/
def lastValues (offset : Nat) : Nat → Nat → List UInt8 → Except Fault (List Nat × Nat)
  | _, padding, [] => .ok ([], padding)
  | index, padding, b :: rest =>
    if b = pad then
      if index < 2 then .error (.symbol b (offset + index))
      else lastValues offset (index + 1) (padding + 1) rest
    else if 0 < padding then .error (.symbol pad (offset + index - padding))
    else
      match value? b with
      | none => .error (.symbol b (offset + index))
      | some v => do
        let (vs, n) ← lastValues offset (index + 1) padding rest
        return (v :: vs, n)

/-- The bytes of the last group, which starts at `offset`. -/
def lastGroup (offset : Nat) (group : List UInt8) : Except Fault (List UInt8) := do
  let (values, padding) ← lastValues offset 0 0 group
  if values.length < 2 then throw (.length (offset + values.length))
  if (values.length + padding) % 4 ≠ 0 then throw .padding
  match values with
  | [a, b] =>
    if b % 16 ≠ 0 then throw (.lastSymbol (group.getD 1 0) (offset + 1))
    return [(a * 4 + b / 16).toUInt8]
  | [a, b, c] =>
    if c % 4 ≠ 0 then throw (.lastSymbol (group.getD 2 0) (offset + 2))
    return (bytesOfGroup a b c 0).take 2
  | [a, b, c, d] => return bytesOfGroup a b c d
  | _ => return []

/-- The bytes of the groups from `offset` on. -/
def groups (offset : Nat) : List UInt8 → Except Fault (List UInt8)
  | a :: b :: c :: d :: e :: rest => do
    let value (i : Nat) (byte : UInt8) : Except Fault Nat :=
      match value? byte with
      | none => .error (.symbol byte (offset + i))
      | some v => .ok v
    let va ← value 0 a
    let vb ← value 1 b
    let vc ← value 2 c
    let vd ← value 3 d
    let bytes ← groups (offset + 4) (e :: rest)
    return bytesOfGroup va vb vc vd ++ bytes
  | group => lastGroup offset group

/-- The bytes that a sequence of symbols stands for. A lone last symbol that is none is reported
before all else. -/
def decode (symbols : List UInt8) : Except Fault (List UInt8) :=
  match symbols.getLast? with
  | none => .ok []
  | some final =>
    if symbols.length % 4 = 1 ∧ final ≠ pad ∧ value? final = none then
      .error (.symbol final (symbols.length - 1))
    else groups 0 symbols

end Telemetry.Text.Base64
