import Telemetry.Error
import Telemetry.Series.Basic

/-!
The two functions that compare each point of a series with an earlier one.

Both walk over the points once. `rate` compares with the latest point before, as long as it is not
further away than the range. `increase` compares with the latest point that is at least the range
away.
-/

set_option autoImplicit false

namespace Telemetry.Series

open Time (Instant)

/-! ## Numbers -/

/-- A whole number as the nearest double; of two that are as near, the even one. -/
def floatOfWord (n : Int) : Float := .ofModel (.ofInt n)

/-- A length of time in seconds. One that has too many nanoseconds for a 64-bit word is counted in
whole milliseconds. -/
def secondsOf (nanos : Int) : Float :=
  if Text.Integer.fitsSigned64 nanos then floatOfWord nanos / 1e9
  else floatOfWord (nanos.tdiv 1000000) / 1e3

/-! ## Rate -/

/-- The rates of the points that follow `before`. The base of a point is the latest earlier one, and
`base` that of the point before. -/
def rateSteps (range : Int) : Point → Option Point → List Point → List Point
  | _, _, [] => []
  | before, base, p :: points =>
    let base := if before.time < p.time then some before else base
    let later := rateSteps range p base points
    match base with
    | none => later
    | some b =>
      let elapsed := p.time.since b.time
      let seconds := secondsOf elapsed
      if range < elapsed then later
      else if seconds ≤ 0.0 then later
      else ⟨p.time, (p.value - b.value) / seconds⟩ :: later

/-- The change per second against the latest earlier point, where that lies within the range. -/
def rate (range : Int) (s : Series) : Series :=
  { s with
    points :=
      match s.points with
      | [] => []
      | p :: points => rateSteps range p none points }

/-! ## Increase -/

/-- Points passed so far: the last of them with its index, how many there are, and the rest. -/
structure Passed where
  base : Option (Nat × Point)
  count : Nat
  rest : List Point

/-- Passes the points at or before an instant, up to the first later one. -/
def Passed.advance (cutoff : Instant) (base : Option (Nat × Point)) (count : Nat) :
    List Point → Passed
  | [] => ⟨base, count, []⟩
  | p :: points =>
    if p.time ≤ cutoff then advance cutoff (some (count, p)) (count + 1) points
    else ⟨base, count, p :: points⟩

/-- The increases of the points from index `j` on. -/
def increaseSteps (range : Int) : Passed → Nat → List Point → Except Error (List Point)
  | _, _, [] => .ok []
  | passed, j, p :: points => do
    let cutoff ←
      match p.time.minus? range with
      | some t => pure t
      | none => throw Error.beyondRange
    let passed := Passed.advance cutoff passed.base passed.count passed.rest
    let later ← increaseSteps range passed (j + 1) points
    match passed.base with
    | some (k, b) => return if k < j then ⟨p.time, p.value - b.value⟩ :: later else later
    | none => return later

/-- The change against the latest point that is at least the range earlier. -/
def increase (range : Int) (s : Series) : Except Error Series := do
  let points ← increaseSteps range ⟨none, 0, s.points⟩ 0 s.points
  return { s with points }

end Telemetry.Series
