/-!
The shortest decimal that reads back as a given double.

A double is taken apart into its sign and `mantissa · 2 ^ exponent`. The reals that round to it
form an interval around it, with its ends exactly when the mantissa is even. Decimal grids are
tried from coarse to fine: on each, only the two neighbours of the value need a look, since a grid
point in the interval implies that one of them is. The first grid with a hit has the fewest digits,
and of two hits the nearer one is taken. Where both are equally near, the caller says which.
-/

set_option autoImplicit false

namespace Telemetry.Decimal

/-! ## A double taken apart -/

/-- What a double is. -/
inductive Reading where
  | notANumber
  | infinite (negative : Bool)
  /-- The number `mantissa · 2 ^ exponent`, with a sign also for zero. -/
  | finite (negative : Bool) (mantissa : Nat) (exponent : Int)
  deriving DecidableEq, Repr

/-- Takes the 64 bits of a double apart. -/
def Reading.ofBits (bits : UInt64) : Reading :=
  let n := bits.toNat
  let negative := decide (0x8000000000000000 ≤ n)
  let biased := n / 0x10000000000000 % 2048
  let fraction := n % 0x10000000000000
  if biased = 2047 then if fraction = 0 then .infinite negative else .notANumber
  else if biased = 0 then .finite negative fraction (-1074)
  else .finite negative (0x10000000000000 + fraction) (Int.ofNat biased - 1075)

/-- Takes a double apart. -/
def Reading.ofFloat (x : Float) : Reading := .ofBits x.toBits

/-! ## Decimals -/

/-- The number `digits · 10 ^ exponent`. -/
structure Scaled where
  digits : Nat
  exponent : Int
  deriving DecidableEq, Repr

/-- Which of two equally near decimals is taken. -/
inductive Tie where
  | up
  | even
  deriving DecidableEq, Repr

/-- The interval of reals that round to `mantissa · 2 ^ exponent`, in quarters of the distance
between neighbouring doubles. A power of two has its lower neighbour at half the distance, unless
it is the smallest of the normal numbers. -/
structure Interval where
  lower : Nat
  value : Nat
  upper : Nat
  closed : Bool
  deriving DecidableEq, Repr

@[inherit_doc Interval]
def Interval.around (mantissa : Nat) (exponent : Int) : Interval :=
  { lower := 4 * mantissa - (if mantissa = 0x10000000000000 ∧ exponent ≠ -1074 then 1 else 2)
    value := 4 * mantissa
    upper := 4 * mantissa + 2
    closed := mantissa % 2 = 0 }

/-- The factor and the divisor that turn quarters of `2 ^ exponent` into multiples of `10 ^ grid`.
-/
def gridRatio (exponent grid : Int) : Nat × Nat :=
  let e := exponent - 2
  (Nat.pow 2 e.toNat * Nat.pow 10 (-grid).toNat, Nat.pow 2 (-e).toNat * Nat.pow 10 grid.toNat)

/-- The point of the grid `10 ^ grid` that is taken for the interval, if one lies in it. -/
def Interval.onGrid (i : Interval) (exponent grid : Int) (tie : Tie) : Option Nat :=
  let (factor, divisor) := gridRatio exponent grid
  let inside (d : Nat) : Bool :=
    if i.closed then i.lower * factor ≤ d * divisor && d * divisor ≤ i.upper * factor
    else i.lower * factor < d * divisor && d * divisor < i.upper * factor
  let below := i.value * factor / divisor
  let rest := i.value * factor % divisor
  match inside below, inside (below + 1) with
  | true, false => some below
  | false, true => some (below + 1)
  | false, false => none
  | true, true =>
    if 2 * rest < divisor then some below
    else if divisor < 2 * rest then some (below + 1)
    else
      match tie with
      | .up => some (below + 1)
      | .even => some (if below % 2 = 0 then below else below + 1)

/-- Tries the grids from `grid` down, as many as `fuel` says. -/
def Interval.search (i : Interval) (exponent : Int) (tie : Tie) : Nat → Int → Scaled
  | 0, grid => ⟨0, grid⟩
  | fuel + 1, grid =>
    match i.onGrid exponent grid tie with
    | some d => ⟨d, grid⟩
    | none => i.search exponent tie fuel (grid - 1)

/-- The shortest decimal that rounds to the positive number `mantissa · 2 ^ exponent`. The first
grid tried is at least ten times as coarse as the number is large, and seventeen digits always
suffice. -/
def shortest (mantissa : Nat) (exponent : Int) (tie : Tie) : Scaled :=
  let magnitude := (Int.ofNat mantissa.log2 + exponent) * 30103 / 100000
  (Interval.around mantissa exponent).search exponent tie 24 (magnitude + 2)

end Telemetry.Decimal
