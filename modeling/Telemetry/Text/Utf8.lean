/-!
UTF-8 between characters and bytes.

`encode` writes each character in the shortest of the four forms. Reading goes through one step,
`next`: it either takes a character or reports how many bytes the longest beginning of a character
at that place has. Strict reading (`decode?`) refuses the latter; lenient reading (`decodeLossy`)
puts one replacement character there and goes on behind those bytes.
-/

set_option autoImplicit false

namespace Telemetry.Text.Utf8

/-! ## Writing -/

/-- The bytes of one character. -/
def encodeChar (c : Char) : List UInt8 :=
  let n := c.toNat
  if n < 0x80 then [n.toUInt8]
  else if n < 0x800 then [(0xC0 + n / 0x40).toUInt8, (0x80 + n % 0x40).toUInt8]
  else if n < 0x10000 then
    [(0xE0 + n / 0x1000).toUInt8, (0x80 + n / 0x40 % 0x40).toUInt8, (0x80 + n % 0x40).toUInt8]
  else
    [(0xF0 + n / 0x40000).toUInt8, (0x80 + n / 0x1000 % 0x40).toUInt8,
      (0x80 + n / 0x40 % 0x40).toUInt8, (0x80 + n % 0x40).toUInt8]

/-- The bytes of a text. -/
def encode (cs : List Char) : List UInt8 := cs.flatMap encodeChar

/-- The number of bytes of a text. -/
def size (cs : List Char) : Nat := cs.foldr (fun c n => c.utf8Size + n) 0

/-! ## Reading -/

/-- What stands at the head of a byte sequence. -/
inductive Head where
  /-- A character, written in this many bytes. -/
  | char (c : Char) (width : Nat)
  /-- No character; so many bytes (at least one) are the beginning of one, or an error. -/
  | broken (width : Nat)

/-- A byte that continues a character. -/
def isTail (b : UInt8) : Bool := 0x80 ≤ b && b ≤ 0xBF

/-- The six bits that a continuing byte carries. -/
def tailBits (b : UInt8) : Nat := b.toNat % 0x40

/-- Whether the second byte may follow the first: no overlong form, no surrogate, nothing past
the last code point. -/
def mayFollow (first second : UInt8) : Bool :=
  if first == 0xE0 then 0xA0 ≤ second && second ≤ 0xBF
  else if first == 0xED then 0x80 ≤ second && second ≤ 0x9F
  else if first == 0xF0 then 0x90 ≤ second && second ≤ 0xBF
  else if first == 0xF4 then 0x80 ≤ second && second ≤ 0x8F
  else isTail second

/-- The character that starts with `first`, or the extent of what is broken there. -/
def head (first : UInt8) (rest : List UInt8) : Head :=
  let a := first.toNat
  if a < 0x80 then .char (Char.ofNat a) 1
  else if a < 0xC2 || 0xF4 < a then .broken 1
  else
    match rest with
    | [] => .broken 1
    | b :: rest =>
      if !mayFollow first b then .broken 1
      else if a < 0xE0 then .char (Char.ofNat (a % 0x20 * 0x40 + tailBits b)) 2
      else
        match rest with
        | [] => .broken 2
        | c :: rest =>
          if !isTail c then .broken 2
          else if a < 0xF0 then
            .char (Char.ofNat (a % 0x10 * 0x1000 + tailBits b * 0x40 + tailBits c)) 3
          else
            match rest with
            | [] => .broken 3
            | d :: _ =>
              if !isTail d then .broken 3
              else
                .char (Char.ofNat (a % 8 * 0x40000 + tailBits b * 0x1000 + tailBits c * 0x40
                  + tailBits d)) 4

/-- Reads the text that `fuel` or fewer bytes hold, with `mend` for what is broken. -/
def decodeWith (mend : Option Char) : Nat → List UInt8 → Option (List Char)
  | _, [] => some []
  | 0, _ => none
  | fuel + 1, b :: bs =>
    match head b bs with
    | .char c width => (decodeWith mend fuel (bs.drop (width - 1))).map (c :: ·)
    | .broken width =>
      match mend with
      | none => none
      | some c => (decodeWith mend fuel (bs.drop (width - 1))).map (c :: ·)

/-- The text that the bytes are, or none where they are not UTF-8. -/
def decode? (bs : List UInt8) : Option (List Char) := decodeWith none bs.length bs

/-- The text that the bytes are, with U+FFFD for each broken part. -/
def decodeLossy (bs : List UInt8) : List Char :=
  (decodeWith (some '\uFFFD') bs.length bs).getD []

end Telemetry.Text.Utf8
