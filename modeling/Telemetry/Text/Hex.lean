/-!
Bytes as pairs of hexadecimal digits: two lower-case digits a byte in writing, digits of either
case in reading.
-/

set_option autoImplicit false

namespace Telemetry.Text.Hex

/-- The digit for a value below sixteen. -/
def digit (n : Nat) : Char := if n < 10 then Char.ofNat (48 + n) else Char.ofNat (87 + n)

/-- The value of a digit of either case. -/
def value? (c : Char) : Option Nat :=
  if '0' ≤ c && c ≤ '9' then some (c.toNat - 48)
  else if 'a' ≤ c && c ≤ 'f' then some (c.toNat - 87)
  else if 'A' ≤ c && c ≤ 'F' then some (c.toNat - 55)
  else none

/-- The two digits of a byte, the high one first. -/
def encodeByte (b : UInt8) : List Char := [digit (b.toNat / 16), digit (b.toNat % 16)]

/-- The digits of a byte sequence. -/
def encode (bs : List UInt8) : List Char := bs.flatMap encodeByte

/-- The bytes whose digits these are; none where a character is no digit or one is left over. -/
def decode? : List Char → Option (List UInt8)
  | [] => some []
  | [_] => none
  | hi :: lo :: rest => do
    let h ← value? hi
    let l ← value? lo
    let bytes ← decode? rest
    return UInt8.ofNat (16 * h + l) :: bytes

end Telemetry.Text.Hex
