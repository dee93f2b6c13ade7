import Telemetry.Text.Hex
import Telemetry.Text.Integer

/-!
Addresses of sockets: a host of the Internet protocol, of version four or six, and the number of a
socket on it.
-/

set_option autoImplicit false

namespace Telemetry

/-! ## Addresses -/

/-- A host: four bytes, or eight groups of 16 bits and the number of a zone. -/
inductive Host where
  | v4 (bytes : List Nat)
  | v6 (groups : List Nat) (zone : Nat)
  deriving DecidableEq, Repr

/-- A host and the number of a socket on it. -/
structure Address where
  host : Host
  socket : Nat
  deriving DecidableEq, Repr

namespace Address

/-! ## Numbers -/

/-- A number of one digit or more, up to the first other character. It is none where it passes
`limit`, has more than `most` digits, or has a leading zero where there may be none. -/
def number? (base limit : Nat) (most : Option Nat) (leadingZero : Bool) (cs : List Char) :
    Option (Nat × List Char) :=
  let value? (c : Char) : Option Nat := (Text.Hex.value? c).filter (· < base)
  let digits := cs.takeWhile fun c => (value? c).isSome
  let n := digits.foldl (fun n c => base * n + (value? c).getD 0) 0
  let few :=
    match most with
    | some k => decide (digits.length ≤ k)
    | none => true
  let plain := leadingZero || digits.head? != some '0' || digits.length == 1
  if !digits.isEmpty && few && plain && decide (n ≤ limit) then some (n, cs.drop digits.length)
  else none

/-- What stands behind a given character. -/
def behind? (c : Char) : List Char → Option (List Char)
  | [] => none
  | d :: rest => if d = c then some rest else none

/-- What stands behind a given character, except at the first place of a sequence, where no
character is wanted. -/
def behindSeparator? (c : Char) (place : Nat) (cs : List Char) : Option (List Char) :=
  if place = 0 then some cs else behind? c cs

/-! ## Version four -/

/-- The bytes of a host from a place on, with points between them. -/
def bytes? (place : Nat) : Nat → List Char → Option (List Nat × List Char)
  | 0, cs => some ([], cs)
  | more + 1, cs => do
    let rest ← behindSeparator? '.' place cs
    let (b, rest) ← number? 10 255 (some 3) false rest
    let (bs, rest) ← bytes? (place + 1) more rest
    return (b :: bs, rest)

/-- A host of version four. -/
def v4? (cs : List Char) : Option (List Nat × List Char) := bytes? 0 4 cs

/-! ## Version six -/

/-- Up to `more` groups from a place on, with colons between them. The last two may have the form of
a host of version four; then the answer says so, and nothing more is read. -/
def groups (place : Nat) : Nat → List Char → List Nat × Bool × List Char
  | 0, cs => ([], false, cs)
  | more + 1, cs =>
    let embedded :=
      if more = 0 then none else (behindSeparator? ':' place cs).bind v4?
    match embedded with
    | some ([a, b, c, d], rest) => ([256 * a + b, 256 * c + d], true, rest)
    | _ =>
      match (behindSeparator? ':' place cs).bind (number? 16 0xFFFF (some 4) true) with
      | none => ([], false, cs)
      | some (g, rest) =>
        let (gs, four, rest) := groups (place + 1) more rest
        (g :: gs, four, rest)

/-- A host of version six, where two colons stand for one group of zeros or more. -/
def v6? (cs : List Char) : Option (List Nat × List Char) :=
  let (front, four, rest) := groups 0 8 cs
  if front.length = 8 then some (front, rest)
  else if four then none
  else do
    let rest ← behind? ':' rest
    let rest ← behind? ':' rest
    let (back, _, rest) := groups 0 (7 - front.length) rest
    return (front ++ List.replicate (8 - front.length - back.length) 0 ++ back, rest)

/-! ## Addresses as texts -/

/-- A colon and the number of a socket. -/
def socket? (cs : List Char) : Option (Nat × List Char) := do
  number? 10 0xFFFF none true (← behind? ':' cs)

/-- The number of a zone behind a percent sign, or zero. -/
def zone (cs : List Char) : Nat × List Char :=
  let found := (behind? '%' cs).bind (number? 10 Text.Integer.maxUnsigned32 none true)
  found.getD (0, cs)

/-- A host and the number of a socket; hosts of version six stand in brackets. -/
def read? (cs : List Char) : Option (Address × List Char) :=
  let four : Option (Address × List Char) := do
    let (bytes, rest) ← v4? cs
    let (socket, rest) ← socket? rest
    return (⟨.v4 bytes, socket⟩, rest)
  let six : Option (Address × List Char) := do
    let (groups, rest) ← v6? (← behind? '[' cs)
    let (zone, rest) := zone rest
    let (socket, rest) ← socket? (← behind? ']' rest)
    return (⟨.v6 groups zone, socket⟩, rest)
  four <|> six

/-- The address that a whole text denotes. -/
def ofText? (text : String) : Option Address := do
  let (address, rest) ← read? text.toList
  if rest.isEmpty then return address else none

end Address

end Telemetry
