import Telemetry.Json.Basic

/-!
From the digits of a number to its value.

A number without fraction and exponent that fits 64 bits is whole. Any other number is a double. Its
digits are taken as long as they fit 64 bits, the decimal point is kept as an exponent, and the
double is the nearest one to those digits, multiplied or divided by a power of ten; so the last bit
of a long number can differ from that of the nearest double. What would be infinite has no value.
-/

set_option autoImplicit false

namespace Telemetry.Json

/-- A number taken apart. -/
structure Numeral where
  negative : Bool
  whole : List Nat
  fraction : Option (List Nat)
  /-- The sign of the exponent, and its digits. -/
  exponent : Option (Bool × List Nat)
  deriving Repr

namespace Numeral

/-- Takes digits onto a significand as long as it fits 64 bits; the other digits are left. -/
def absorb (significand : Nat) : List Nat → Nat × List Nat
  | [] => (significand, [])
  | d :: ds =>
    if Text.Integer.maxUnsigned64 < 10 * significand + d then (significand, d :: ds)
    else absorb (10 * significand + d) ds

/-- The number that digits denote, or none where it passes 32 signed bits. -/
def exponentOf (ds : List Nat) : Option Int :=
  let n := ds.foldl (fun n d => 10 * n + d) 0
  if n ≤ Text.Integer.maxSigned32 then some n else none

/-- The double for a power of ten up to 308. -/
def powerOfTen (k : Nat) : Float := Float.ofScientific 1 false k

/-- Multiplies or divides a double by a power of ten, in steps of at most 308. -/
def scale : Nat → Float → Int → Option Float
  | 0, x, _ => some x
  | fuel + 1, x, e =>
    if e.natAbs ≤ 308 then
      if 0 ≤ e then
        let y := x * powerOfTen e.natAbs
        if y.isInf then none else some y
      else some (x / powerOfTen e.natAbs)
    else if x == 0.0 then some x
    else if 0 ≤ e then none
    else scale fuel (x / powerOfTen 308) (e + 308)

/-- The double for a significand of 64 bits and an exponent. A double is zero after three steps. -/
def real (negative : Bool) (significand : Nat) (exponent : Int) : Option Number :=
  (scale 5 (UInt64.ofNat significand).toFloat exponent).map fun x =>
    .real (if negative then -x else x)

/-- The value of a number. -/
def value? (n : Numeral) : Option Number :=
  let (significand, beyond) := absorb 0 n.whole
  let shift : Int := beyond.length
  let (significand, shift) :=
    match n.fraction with
    | none => (significand, shift)
    | some ds =>
      let (s, rest) := absorb significand ds
      (s, shift - (ds.length - rest.length))
  match n.exponent with
  | some (negativeExponent, ds) =>
    match exponentOf ds with
    | some e => real n.negative significand (if negativeExponent then shift - e else shift + e)
    | none =>
      if significand ≠ 0 ∧ negativeExponent = false then none
      else some (.real (if n.negative then -0.0 else 0.0))
  | none =>
    if n.fraction.isSome || !beyond.isEmpty then real n.negative significand shift
    else if !n.negative then some (.whole significand)
    else if significand = 0 ∨ 0x8000000000000000 < significand then
      some (.real (-(UInt64.ofNat significand).toFloat))
    else some (.whole (-significand))

end Numeral

end Telemetry.Json
