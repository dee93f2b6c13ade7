import Telemetry.Text.Blank
import Telemetry.Text.Integer

/-!
Lengths of time, and the reader for texts such as `1h 30m`.

A text is a sequence of terms. A term is a number, perhaps with a fraction, and a unit; blanks may
stand between and inside numbers. The sum of the terms has to fit in 64 bits of seconds, and a
fraction has to come out even: in nanoseconds for units up to the minute, in seconds for longer
ones. A fault is reported with the byte offset of its place, and the first one found wins.
-/

set_option autoImplicit false

namespace Telemetry.Time

open Telemetry.Text

/-! ## The type -/

/-- A length of time, in nanoseconds. -/
structure Duration where
  nanos : Nat
  deriving DecidableEq, Repr, Inhabited

namespace Duration

/-- So many whole seconds. -/
def ofSeconds (n : Nat) : Duration := ⟨n * 1000000000⟩

/-- The whole seconds. -/
def seconds (d : Duration) : Nat := d.nanos / 1000000000

/-- The nanoseconds beyond the whole seconds. -/
def subsecond (d : Duration) : Nat := d.nanos % 1000000000

/-- The greatest length that can be added to an instant: 2^63 - 1 milliseconds. -/
def limit : Nat := Integer.maxSigned64 * 1000000

/-- The length as a signed number of nanoseconds, where it can be added to an instant. -/
def toSigned? (d : Duration) : Option Int := if d.nanos ≤ limit then some d.nanos else none

/-! ## Faults -/

/-- Why a text is no length of time. -/
inductive Fault where
  | empty
  | numberExpected (offset : Nat)
  | invalidCharacter (offset : Nat)
  | unitNeeded (number : Nat)
  | unknownUnit (name : String)
  | overflow
  /-- The seconds are exhausted by a carry from exactly one second of nanoseconds. -/
  | carry
  deriving DecidableEq, Repr

/-- The fault in words. -/
def Fault.message : Fault → String
  | .empty => "value was empty"
  | .numberExpected i => s!"expected number at {i}"
  | .invalidCharacter i => s!"invalid character at {i}"
  | .unitNeeded n => s!"time unit needed, for example {n}sec or {n}ms"
  | .unknownUnit name =>
    "unknown time unit \"" ++ name ++ "\", supported units: ns, us/µs, ms, sec, min, hours, " ++
      "days, weeks, months, years (and few variations)"
  | .overflow =>
    "number is too large or cannot be represented without a lack of precision " ++
      "(values below 1ns are not supported)"
  | .carry => "seconds exhausted"

/-! ## Units -/

/-- A unit of time. Those up to the minute are counted in nanoseconds when they have a fraction,
and those below the second also when they have none. -/
inductive TimeUnit where
  | nanosecond
  | microsecond
  | millisecond
  | second
  | minute
  | hour
  | day
  | week
  | month
  | year
  deriving DecidableEq, Repr

/-- The unit of a name. -/
def TimeUnit.ofName? (name : String) : Option TimeUnit :=
  if name ∈ ["nanos", "nsec", "ns"] then some .nanosecond
  else if name ∈ ["usec", "us", "µs"] then some .microsecond
  else if name ∈ ["millis", "msec", "ms"] then some .millisecond
  else if name ∈ ["seconds", "second", "secs", "sec", "s"] then some .second
  else if name ∈ ["minutes", "minute", "min", "mins", "m"] then some .minute
  else if name ∈ ["hours", "hour", "hrs", "hr", "h"] then some .hour
  else if name ∈ ["days", "day", "d"] then some .day
  else if name ∈ ["weeks", "week", "wks", "wk", "w"] then some .week
  else if name ∈ ["months", "month", "M"] then some .month
  else if name ∈ ["years", "year", "yrs", "yr", "y"] then some .year
  else none

/-- Seconds of a unit of at least one second; a month has 30.44 days and a year 365.25. -/
def TimeUnit.seconds : TimeUnit → Nat
  | .nanosecond | .microsecond | .millisecond => 0
  | .second => 1
  | .minute => 60
  | .hour => 3600
  | .day => 86400
  | .week => 604800
  | .month => 2630016
  | .year => 31557600

/-- Nanoseconds of a unit below the second. -/
def TimeUnit.nanoseconds : TimeUnit → Nat
  | .nanosecond => 1
  | .microsecond => 1000
  | .millisecond => 1000000
  | _ => 0

/-! ## Sums -/

/-- A product that has to fit in 64 bits. -/
def product (a b : Nat) : Except Fault Nat :=
  if Integer.maxUnsigned64 < a * b then .error .overflow else .ok (a * b)

/-- Adds seconds and nanoseconds to a sum. Nanoseconds and seconds each have to fit in 64 bits, and
what is above one second of nanoseconds is carried before the seconds are added. -/
def add (sum : Duration) (seconds nanoseconds : Nat) : Except Fault Duration :=
  let nanos := sum.subsecond + nanoseconds
  let carried := if 1000000000 < nanos then nanos / 1000000000 else 0
  if Integer.maxUnsigned64 < nanos ∨ Integer.maxUnsigned64 < sum.seconds + (seconds + carried) then
    .error .overflow
  else if nanos = 1000000000 ∧ sum.seconds + seconds = Integer.maxUnsigned64 then .error .carry
  else .ok ⟨sum.nanos + seconds * 1000000000 + nanoseconds⟩

/-- A fraction: `numerator / denominator`. -/
structure Fraction where
  numerator : Nat
  denominator : Nat

/-- The part of a unit that a fraction denotes, in seconds and nanoseconds. -/
def Fraction.parts (f : Fraction) : TimeUnit → Except Fault (Nat × Nat)
  | .nanosecond => .error .overflow
  | .microsecond => even 1000 (fun n => (0, n))
  | .millisecond => even 1000000 (fun n => (0, n))
  | .second => even 1000000000 (fun n => (0, n))
  | .minute => even 60000000000 (fun n => (0, n))
  | unit => even unit.seconds (fun n => (n, 0))
where
  /-- The fraction of so many parts, which has to be whole. -/
  even (parts : Nat) (place : Nat → Nat × Nat) : Except Fault (Nat × Nat) := do
    let n ← product f.numerator parts
    if n % f.denominator ≠ 0 then throw .overflow
    return place (n / f.denominator)

/-- Adds a term to a sum. -/
def addTerm (sum : Duration) (number : Nat) (fraction : Option Fraction) (unit : String) :
    Except Fault Duration := do
  let some unit := TimeUnit.ofName? unit
    | throw (if unit.isEmpty then .unitNeeded number else .unknownUnit unit)
  let seconds ← product number unit.seconds
  let nanoseconds ← product number unit.nanoseconds
  let sum ← sum.add seconds nanoseconds
  match fraction with
  | none => return sum
  | some fraction =>
    let (seconds, nanoseconds) ← fraction.parts unit
    sum.add seconds nanoseconds

/-! ## Reading -/

/-- The letters of which units are made. -/
def isUnitLetter (c : Char) : Bool :=
  ('a' ≤ c && c ≤ 'z') || ('A' ≤ c && c ≤ 'Z') || c == 'µ'

/-- What stands behind the whole digits of a number, at which offset. -/
inductive Behind where
  | unit (offset : Nat) (rest : List Char)
  | point (offset : Nat) (rest : List Char)

/-- Reads the whole digits of a number onto `number`. -/
def whole (number offset : Nat) : List Char → Except Fault (Nat × Behind)
  | [] => .ok (number, .unit offset [])
  | c :: cs =>
    match Integer.digit? c with
    | some d =>
      if Integer.maxUnsigned64 < 10 * number + d then .error .overflow
      else whole (10 * number + d) (offset + 1) cs
    | none =>
      if isBlank c then whole number (offset + c.utf8Size) cs
      else if isUnitLetter c then .ok (number, .unit offset (c :: cs))
      else if c = '.' then .ok (number, .point offset cs)
      else .error (.invalidCharacter offset)

/-- Reads the digits behind a point. A fault is placed at `fault`: at the point itself as long as
nothing behind it has been read. -/
def fractionDigits (numerator denominator fault offset : Nat) :
    List Char → Except Fault (Fraction × Nat × List Char)
  | [] => finish []
  | c :: cs =>
    match Integer.digit? c with
    | some d =>
      if Integer.maxUnsigned64 < 10 * denominator then .error .overflow
      else fractionDigits (10 * numerator + d) (10 * denominator) (offset + 1) (offset + 1) cs
    | none =>
      if isBlank c then
        let next := offset + c.utf8Size
        fractionDigits numerator denominator next next cs
      else if isUnitLetter c then finish (c :: cs)
      else .error (.invalidCharacter fault)
where
  /-- The fraction read so far, which needs a digit. -/
  finish (rest : List Char) : Except Fault (Fraction × Nat × List Char) :=
    if denominator = 1 then .error (.invalidCharacter fault)
    else .ok (⟨numerator, denominator⟩, fault, rest)

/-- Reads the letters of a unit; it ends at a digit, behind a blank, or with the text. -/
def unitName (offset : Nat) : List Char → Except Fault (List Char × Nat × List Char)
  | [] => .ok ([], offset, [])
  | c :: cs =>
    if isUnitLetter c then do
      let (name, offset, rest) ← unitName (offset + c.utf8Size) cs
      return (c :: name, offset, rest)
    else if (Integer.digit? c).isSome then .ok ([], offset, c :: cs)
    else if isBlank c then .ok ([], offset + c.utf8Size, cs)
    else .error (.invalidCharacter offset)

/-- Skips blanks up to the first digit of a number; none at the end of the text. -/
def firstDigit (start offset : Nat) : List Char → Except Fault (Option (Nat × Nat × List Char))
  | [] => .ok none
  | c :: cs =>
    match Integer.digit? c with
    | some d => .ok (some (d, offset + 1, cs))
    | none =>
      if isBlank c then firstDigit start (offset + c.utf8Size) cs
      else .error (.numberExpected start)

/-- Reads the terms from `offset` on onto a sum. Each term takes a character or more, so `fuel` need
not be more than the length of the text. -/
def terms : Nat → Bool → Duration → Nat → List Char → Except Fault Duration
  | 0, _, sum, _, _ => .ok sum
  | fuel + 1, first, sum, offset, cs => do
    let some (digit, offset, cs) ← firstDigit offset offset cs
      | if first then throw .empty else return sum
    let (number, behind) ← whole digit offset cs
    let (fraction, offset, cs) ←
      match behind with
      | .unit offset cs => pure (none, offset, cs)
      | .point offset cs => do
        let (fraction, offset, cs) ← fractionDigits 0 1 offset (offset + 1) cs
        pure (some fraction, offset, cs)
    let (name, offset, cs) ← unitName offset cs
    let sum ← sum.addTerm number fraction (String.ofList name)
    terms fuel false sum offset cs

/-- The length of time that a text denotes. -/
def read (cs : List Char) : Except Fault Duration :=
  if cs = ['0'] then .ok ⟨0⟩ else terms (cs.length + 1) true ⟨0⟩ 0 cs

end Duration

end Telemetry.Time
