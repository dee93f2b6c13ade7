import Telemetry.Json.Number
import Telemetry.Text.Hex
import Telemetry.Text.Utf8

/-!
The reader of JSON texts, from bytes to values.

The whole text is checked, parts that nobody will look at included. A part that is well formed but
has no value becomes `unreadable`, and so does an object one of whose names cannot be read.
-/

set_option autoImplicit false

namespace Telemetry.Json.Reader

open Text (Utf8.decode? Utf8.encodeChar Hex.value?)

/-! ## Bytes -/

/-- A byte as the character of ASCII it stands for, or as one beyond ASCII. -/
def ascii (b : UInt8) : Char := Char.ofNat b.toNat

/-- Skips the four blanks that may stand between tokens. -/
def skip (bs : List UInt8) : List UInt8 :=
  bs.dropWhile fun b => b == 0x20 || b == 0x09 || b == 0x0A || b == 0x0D

/-- The bytes behind a given word. -/
def behind? (word : String) (bs : List UInt8) : Option (List UInt8) :=
  let w := word.toList.map fun c => c.toNat.toUInt8
  if w.isPrefixOf bs then some (bs.drop w.length) else none

/-! ## Strings -/

/-- Four hexadecimal digits. -/
def unit? : List UInt8 → Option (Nat × List UInt8)
  | a :: b :: c :: d :: rest => do
    let a ← Hex.value? (ascii a)
    let b ← Hex.value? (ascii b)
    let c ← Hex.value? (ascii c)
    let d ← Hex.value? (ascii d)
    return (((a * 16 + b) * 16 + c) * 16 + d, rest)
  | _ => none

/-- A piece of a string: bytes of its text, or a unit of UTF-16. -/
inductive Piece where
  | byte (b : UInt8)
  | unit (n : Nat)

/-- The byte for the letter of an escape. -/
def escaped? : Char → Option UInt8
  | '"' => some 0x22
  | '\\' => some 0x5C
  | '/' => some 0x2F
  | 'b' => some 0x08
  | 'f' => some 0x0C
  | 'n' => some 0x0A
  | 'r' => some 0x0D
  | 't' => some 0x09
  | _ => none

/-- The pieces of a string up to its closing quote, and what stands behind it. -/
def pieces : Nat → List Piece → List UInt8 → Except Fault (List Piece × List UInt8)
  | 0, _, _ => .error .unfinished
  | _ + 1, _, [] => .error .unfinished
  | fuel + 1, acc, b :: rest =>
    if b = 0x22 then .ok (acc.reverse, rest)
    else if b < 0x20 then .error (.malformed "control character in a string")
    else if b = 0x5C then
      match rest with
      | [] => .error .unfinished
      | e :: rest =>
        if ascii e = 'u' then
          match unit? rest with
          | none =>
            if rest.length < 4 then .error .unfinished else .error (.malformed "invalid escape")
          | some (n, rest) => pieces fuel (.unit n :: acc) rest
        else
          match escaped? (ascii e) with
          | none => .error (.malformed "invalid escape")
          | some b => pieces fuel (.byte b :: acc) rest
    else pieces fuel (.byte b :: acc) rest

/-- The bytes of pieces, where the units pair up to characters. -/
def bytes? : List Piece → Option (List UInt8)
  | [] => some []
  | .byte b :: rest => (bytes? rest).map (b :: ·)
  | .unit n :: .unit m :: rest =>
    if 0xD800 ≤ n ∧ n < 0xDC00 then
      if 0xDC00 ≤ m ∧ m < 0xE000 then
        let c := Char.ofNat (0x10000 + (n - 0xD800) * 0x400 + (m - 0xDC00))
        (bytes? rest).map (Utf8.encodeChar c ++ ·)
      else none
    else if 0xDC00 ≤ n ∧ n < 0xE000 then none
    else (bytes? (.unit m :: rest)).map (Utf8.encodeChar (Char.ofNat n) ++ ·)
  | .unit n :: rest =>
    if 0xD800 ≤ n ∧ n < 0xE000 then none
    else (bytes? rest).map (Utf8.encodeChar (Char.ofNat n) ++ ·)

/-- A string behind its opening quote; none where it has no value. -/
def string (bs : List UInt8) : Except Fault (Option String × List UInt8) := do
  let (ps, rest) ← pieces (bs.length + 1) [] bs
  return ((bytes? ps).bind fun bytes => (Utf8.decode? bytes).map String.ofList, rest)

/-! ## Numbers -/

/-- The digits at the head of a text. -/
def digits : List UInt8 → List Nat × List UInt8
  | [] => ([], [])
  | b :: bs =>
    if 0x30 ≤ b && b ≤ 0x39 then
      let (ds, rest) := digits bs
      ((b.toNat - 0x30) :: ds, rest)
    else ([], b :: bs)

/-- One digit or more. -/
def digits1 (bs : List UInt8) : Except Fault (List Nat × List UInt8) :=
  match digits bs with
  | ([], []) => .error .unfinished
  | ([], _) => .error (.malformed "invalid number")
  | r => .ok r

/-- A number. -/
def numeral (bs : List UInt8) : Except Fault (Numeral × List UInt8) := do
  let (negative, bs) :=
    match bs with
    | 0x2D :: rest => (true, rest)
    | _ => (false, bs)
  let (whole, bs) ← digits1 bs
  if whole.head? = some 0 ∧ 1 < whole.length then throw (.malformed "invalid number")
  let (fraction, bs) ←
    match bs with
    | 0x2E :: rest => do
      let (ds, rest) ← digits1 rest
      pure (some ds, rest)
    | _ => pure (none, bs)
  let (exponent, bs) ←
    match bs with
    | b :: rest =>
      if b = 0x65 ∨ b = 0x45 then do
        let (negative, rest) :=
          match rest with
          | 0x2B :: rest => (false, rest)
          | 0x2D :: rest => (true, rest)
          | _ => (false, rest)
        let (ds, rest) ← digits1 rest
        pure (some (negative, ds), rest)
      else pure (none, bs)
    | [] => pure (none, bs)
  return (⟨negative, whole, fraction, exponent⟩, bs)

/-! ## Values -/

/-- A value that is neither array nor object. -/
def scalar (bs : List UInt8) : Except Fault (Json × List UInt8) :=
  match bs with
  | [] => .error .unfinished
  | b :: rest =>
    if b = 0x22 then do
      let (s, rest) ← string rest
      return ((s.map Json.string).getD .unreadable, rest)
    else if b = 0x2D ∨ (0x30 ≤ b ∧ b ≤ 0x39) then do
      let (n, rest) ← numeral bs
      return ((n.value?.map Json.number).getD .unreadable, rest)
    else
      match behind? "null" bs, behind? "true" bs, behind? "false" bs with
      | some rest, _, _ => .ok (.null, rest)
      | _, some rest, _ => .ok (.bool true, rest)
      | _, _, some rest => .ok (.bool false, rest)
      | _, _, _ => .error (.malformed "expected a value")

/-- The name of a member and the colon behind it; none for a name without a value. -/
def name (bs : List UInt8) : Except Fault (Option String × List UInt8) :=
  match bs with
  | [] => .error .unfinished
  | 0x22 :: rest => do
    let (s, rest) ← string rest
    match skip rest with
    | [] => throw .unfinished
    | 0x3A :: rest => return (s, rest)
    | _ => throw (.malformed "expected a colon")
  | _ => .error (.malformed "a name must be a string")

/-- An object of members whose names may lack a value. -/
def objectOf (members : List (Option String × Json)) : Json :=
  match members.mapM fun m => m.1.map fun n => (n, m.2) with
  | some members => .object members
  | none => .unreadable

mutual

/-- A value, behind blanks. Each level takes a byte, so the length of the text is fuel enough. -/
def value : Nat → List UInt8 → Except Fault (Json × List UInt8)
  | 0, _ => .error .unfinished
  | fuel + 1, bs =>
    match skip bs with
    | 0x5B :: rest =>
      match skip rest with
      | 0x5D :: rest => .ok (.array [], rest)
      | _ => do
        let (is, rest) ← items fuel [] rest
        return (.array is, rest)
    | 0x7B :: rest =>
      match skip rest with
      | 0x7D :: rest => .ok (.object [], rest)
      | rest => do
        let (ms, rest) ← members fuel [] rest
        return (objectOf ms, rest)
    | bs => scalar bs

/-- The items of an array from one on, up to the closing bracket. -/
def items : Nat → List Json → List UInt8 → Except Fault (List Json × List UInt8)
  | 0, _, _ => .error .unfinished
  | fuel + 1, acc, bs => do
    let (v, rest) ← value fuel bs
    match skip rest with
    | 0x2C :: rest => items fuel (v :: acc) rest
    | 0x5D :: rest => return ((v :: acc).reverse, rest)
    | [] => throw .unfinished
    | _ => throw (.malformed "expected a comma or a bracket")

/-- The members of an object from one on, up to the closing brace. -/
def members : Nat → List (Option String × Json) → List UInt8 →
    Except Fault (List (Option String × Json) × List UInt8)
  | 0, _, _ => .error .unfinished
  | fuel + 1, acc, bs => do
    let (n, rest) ← name bs
    let (v, rest) ← value fuel rest
    match skip rest with
    | 0x2C :: rest => members fuel ((n, v) :: acc) (skip rest)
    | 0x7D :: rest => return (((n, v) :: acc).reverse, rest)
    | [] => throw .unfinished
    | _ => throw (.malformed "expected a comma or a brace")

end

end Reader

/-- The value of a text, which may have blanks around it. -/
def read (bs : List UInt8) : Except Fault Json := do
  let (v, rest) ← Reader.value (bs.length + 1) bs
  if (Reader.skip rest).isEmpty then return v else throw .trailing

/-- The value of a text given as a string. -/
def readText (s : String) : Except Fault Json := read (Text.Utf8.encode s.toList)

end Telemetry.Json
