import Telemetry.Text.Integer
import Telemetry.Time.Calendar

/-!
Instants, and the arithmetic on them.

An instant is a second since 1970-01-01T00:00:00Z with a fraction in nanoseconds. A fraction of one
second or more stands for a leap second, which follows that second and precedes the next. Instants
are ordered by second, then by fraction.

Arithmetic is defined for the years -262143 to 262142. `minus?` says by `none` that a result would
lie outside.
-/

set_option autoImplicit false

namespace Telemetry.Time

/-! ## The type -/

/-- Nanoseconds of one second. -/
def nanosPerSecond : Nat := 1000000000

/-- A second and a fraction of it in nanoseconds, or of the leap second that follows it. -/
structure Instant where
  second : Int
  nano : Nat
  nano_lt : nano < 2000000000 := by omega
  deriving DecidableEq, Repr

namespace Instant

@[ext] theorem ext {a b : Instant} (hs : a.second = b.second) (hn : a.nano = b.nano) : a = b := by
  cases a; cases b; simp only at hs hn; subst hs; subst hn; rfl

/-- The beginning of 1970. -/
def epoch : Instant := ⟨0, 0, by omega⟩

instance : Inhabited Instant := ⟨epoch⟩

/-- Whether an instant lies before another one. -/
def before (a b : Instant) : Bool :=
  decide (a.second < b.second ∨ (a.second = b.second ∧ a.nano < b.nano))

instance : LT Instant := ⟨fun a b => a.before b = true⟩
instance : LE Instant := ⟨fun a b => b.before a = false⟩
instance (a b : Instant) : Decidable (a < b) := inferInstanceAs (Decidable (_ = true))
instance (a b : Instant) : Decidable (a ≤ b) := inferInstanceAs (Decidable (_ = false))

theorem lt_iff {a b : Instant} :
    a < b ↔ a.second < b.second ∨ (a.second = b.second ∧ a.nano < b.nano) := by
  show a.before b = true ↔ _
  simp [before]

theorem le_iff {a b : Instant} : a ≤ b ↔ ¬ b < a := by
  show b.before a = false ↔ ¬ b.before a = true
  simp

/-- The later of two instants. -/
def latest (a b : Instant) : Instant := if a < b then b else a

/-- Whether an instant lies in a leap second. -/
def isLeap (t : Instant) : Bool := nanosPerSecond ≤ t.nano

/-! ## Nanoseconds since the epoch -/

/-- The nanoseconds from the epoch to the instant, a leap second being counted like the second
after it. -/
def toNanos (t : Instant) : Int := t.second * nanosPerSecond + t.nano

/-- The instant so many nanoseconds after the epoch. -/
def ofNanos (n : Int) : Instant :=
  ⟨n / nanosPerSecond, (n % nanosPerSecond).toNat, by simp only [nanosPerSecond]; omega⟩

/-- The nanoseconds since the epoch, where they fit a 64-bit signed word. -/
def toWord? (t : Instant) : Option Int :=
  if Text.Integer.fitsSigned64 t.toNanos then some t.toNanos else none

@[simp] theorem toNanos_ofNanos (n : Int) : (ofNanos n).toNanos = n := by
  simp only [toNanos, ofNanos, nanosPerSecond]
  omega

theorem ofNanos_toNanos {t : Instant} (h : t.isLeap = false) : ofNanos t.toNanos = t := by
  have hn : t.nano < 1000000000 := Nat.not_le.1 (of_decide_eq_false h)
  apply ext <;> simp only [toNanos, ofNanos, nanosPerSecond] <;> omega

/-- Seconds since the epoch as a double, whole milliseconds being kept. -/
def toSeconds (t : Instant) : Float :=
  let millis := t.second * 1000 + Int.ofNat (t.nano / 1000000)
  Float.ofInt millis / 1000.0

/-! ## The calendar -/

/-- The first and the last second of the calendar. -/
def firstSecond : Int := -8334601228800
@[inherit_doc firstSecond] def lastSecond : Int := 8210266876799

/-- Whether the calendar has the instant. -/
def inCalendar (t : Instant) : Bool := firstSecond ≤ t.second && t.second ≤ lastSecond

/-- The day on which an instant lies. -/
def date (t : Instant) : Date := .ofDayNumber (t.second / 86400)

/-- The seconds of that day before the instant. -/
def secondOfDay (t : Instant) : Nat := (t.second % 86400).toNat

/-! ## Arithmetic -/

/-- Moves an instant by a number of nanoseconds. A leap second is left for the next second when
moving forward past its end, and for the second it belongs to counts as the one after when moving
back by a second or more; smaller moves stay in it. -/
def shift (t : Instant) (nanos : Int) : Instant :=
  let seconds := nanos.tdiv nanosPerSecond
  let rest := nanos.tmod nanosPerSecond
  let settle (second fraction : Int) : Instant :=
    ofNanos ((second + seconds) * nanosPerSecond + (fraction + rest))
  if t.isLeap then
    if 0 < seconds ∨ (0 < rest ∧ 2000000000 - rest ≤ t.nano) then
      settle t.second (t.nano - nanosPerSecond)
    else if seconds < 0 then settle (t.second + 1) (t.nano - nanosPerSecond)
    else
      let nano := (t.nano + rest).toNat
      if h : nano < 2000000000 then ⟨t.second, nano, h⟩ else settle t.second t.nano
  else settle t.second t.nano

/-- The instant so many nanoseconds later, where the calendar has it. -/
def plus? (t : Instant) (nanos : Int) : Option Instant :=
  let moved := t.shift nanos
  if moved.inCalendar then some moved else none

/-- The instant so many nanoseconds earlier, where the calendar has it. -/
def minus? (t : Instant) (nanos : Int) : Option Instant := t.plus? (-nanos)

/-- The nanoseconds from `b` to `a`. A leap second between two times of day is counted when it
belongs to the earlier time of day. -/
def since (a b : Instant) : Int :=
  let leap : Int :=
    if b.secondOfDay < a.secondOfDay ∧ b.isLeap then 1
    else if a.secondOfDay < b.secondOfDay ∧ a.isLeap then -1
    else 0
  (a.second - b.second + leap) * nanosPerSecond + (Int.ofNat a.nano - b.nano)

end Instant

end Telemetry.Time
