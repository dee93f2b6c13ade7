import Telemetry.Text.Blank
import Telemetry.Text.Integer
import Telemetry.Time.Instant

/-!
Instants as texts in the manner of RFC 3339.

There are two readers. The strict one takes the grammar of the standard: fields of fixed width, a
letter `T` or a blank between date and time, `Z` or an offset in hours and minutes. The lenient one
also takes years of any length with a sign, fields of one digit, blanks between fields, the zone
`UTC`, and offsets without a colon. Both take second 60 as a leap second.

There are two printers, one for documents and one for messages. Both show milliseconds,
microseconds or nanoseconds, whichever are enough.
-/

set_option autoImplicit false

namespace Telemetry.Time

open Telemetry.Text

/-! ## Parts of a text -/

/-- Reads at least `least` and at most `most` decimal digits. -/
def number? (least most : Nat) (cs : List Char) : Option (Nat × List Char) :=
  let ds := (cs.take most).takeWhile Char.isDigit
  if ds.length < least then none
  else some (ds.foldl (fun n c => 10 * n + (c.toNat - 48)) 0, cs.drop ds.length)

/-- Reads one given character. -/
def literal? (c : Char) : List Char → Option (List Char)
  | [] => none
  | d :: cs => if d = c then some cs else none

/-- Reads the separator of date and time. -/
def separator? : List Char → Option (List Char)
  | 't' :: cs | 'T' :: cs | ' ' :: cs => some cs
  | _ => none

/-- Reads a fraction of a second, of which nine digits count. -/
def fraction? : List Char → Option (Nat × List Char)
  | '.' :: cs => do
    let (n, rest) ← number? 1 9 cs
    let scale := Nat.pow 10 (9 - (cs.length - rest.length))
    return (n * scale, rest.dropWhile Char.isDigit)
  | cs => some (0, cs)

/-- Reads a zone: `Z`, or a sign, hours, what `colon` reads, and minutes. The result counts the
seconds by which local time is ahead. -/
def offset? (colon : List Char → Option (List Char)) : List Char → Option (Int × List Char)
  | 'Z' :: cs | 'z' :: cs => some (0, cs)
  | '+' :: cs => digits 1 cs
  | '-' :: cs | '\u2212' :: cs => digits (-1) cs
  | _ => none
where
  /-- The hours and minutes behind a sign. -/
  digits (sign : Int) (cs : List Char) : Option (Int × List Char) := do
    let (hours, cs) ← number? 2 2 cs
    let cs ← colon cs
    let (minutes, cs) ← number? 2 2 cs
    if 59 < minutes then none
    else return (sign * (Int.ofNat hours * 3600 + Int.ofNat minutes * 60), cs)

/-! ## Fields -/

/-- A local date and time of day with the offset of its zone. -/
structure Fields where
  date : Date
  hour : Nat
  minute : Nat
  second : Nat
  nano : Nat
  offset : Int

/-- The instant that the fields denote, if there is one. -/
def Fields.instant? (f : Fields) : Option Instant :=
  if f.date.exists? && firstYear ≤ f.date.year && f.date.year ≤ lastYear &&
      decide (f.hour < 24 ∧ f.minute < 60 ∧ f.second ≤ 60 ∧ f.offset.natAbs < 86400) then
    let second := if f.second = 60 then 59 else f.second
    let nano := if f.second = 60 then f.nano + nanosPerSecond else f.nano
    if h : nano < 2000000000 then
      let t : Instant :=
        ⟨f.date.toDayNumber * 86400 + f.hour * 3600 + f.minute * 60 + second - f.offset, nano, h⟩
      if t.inCalendar then some t else none
    else none
  else none

/-! ## The strict reader -/

/-- The instant that a text of RFC 3339 denotes. -/
def strict? (cs : List Char) : Option Instant := do
  let (year, cs) ← number? 4 4 cs
  let cs ← literal? '-' cs
  let (month, cs) ← number? 2 2 cs
  let cs ← literal? '-' cs
  let (day, cs) ← number? 2 2 cs
  let cs ← separator? cs
  let (hour, cs) ← number? 2 2 cs
  let cs ← literal? ':' cs
  let (minute, cs) ← number? 2 2 cs
  let cs ← literal? ':' cs
  let (second, cs) ← number? 2 2 cs
  let (nano, cs) ← fraction? cs
  let (offset, cs) ← offset? (literal? ':') cs
  if !cs.isEmpty then none
  else Fields.instant? ⟨⟨year, month, day⟩, hour, minute, second, nano, offset⟩

/-! ## The lenient reader -/

/-- Reads a field of one or two digits, behind blanks. -/
def field? (cs : List Char) : Option (Nat × List Char) := number? 1 2 (trimStart cs)

/-- Reads a year, behind blanks: up to four digits, or a sign and any number of digits. -/
def year? (cs : List Char) : Option (Int × List Char) :=
  match trimStart cs with
  | '-' :: cs => (number? 1 cs.length cs).map fun r => (-Int.ofNat r.1, r.2)
  | '+' :: cs => (number? 1 cs.length cs).map fun r => (Int.ofNat r.1, r.2)
  | cs => (number? 1 4 cs).map fun r => (Int.ofNat r.1, r.2)

/-- Reads a zone in the lenient way. -/
def lenientOffset? (cs : List Char) : Option (Int × List Char) :=
  match cs with
  | u :: t :: c :: rest =>
    if [u, t, c].map Char.toUpper = ['U', 'T', 'C'] then some (0, rest) else offset? colons cs
  | _ => offset? colons cs
where
  /-- Skips colons and blanks. -/
  colons (cs : List Char) : Option (List Char) := some (cs.dropWhile fun c => c = ':' || isBlank c)

/-- The instant that a text denotes when it is read leniently. -/
def lenient? (cs : List Char) : Option Instant := do
  let (year, cs) ← year? cs
  let cs ← literal? '-' (trimStart cs)
  let (month, cs) ← field? cs
  let cs ← literal? '-' (trimStart cs)
  let (day, cs) ← field? cs
  let cs ← separator? cs
  let (hour, cs) ← field? cs
  let cs ← literal? ':' (trimStart cs)
  let (minute, cs) ← field? cs
  let cs ← literal? ':' (trimStart cs)
  let (second, cs) ← field? cs
  let (nano, cs) ← fraction? cs
  let (offset, cs) ← lenientOffset? (trimStart cs)
  if !(trimStart cs).isEmpty then none
  else Fields.instant? ⟨⟨year, month, day⟩, hour, minute, second, nano, offset⟩

/-! ## Printing -/

/-- A number with zeros in front, up to a given width. -/
def padded (width n : Nat) : String :=
  let ds := Nat.toDigits 10 n
  String.ofList (List.replicate (width - ds.length) '0' ++ ds)

/-- A year: four digits, with a sign outside 0 to 9999. -/
def yearText (year : Int) : String :=
  if year < 0 then "-" ++ padded 4 year.natAbs
  else if 9999 < year then "+" ++ padded 4 year.natAbs
  else padded 4 year.natAbs

/-- A fraction of a second with three, six or nine digits, or nothing. -/
def fractionText (nano : Nat) : String :=
  if nano = 0 then ""
  else if nano % 1000000 = 0 then "." ++ padded 3 (nano / 1000000)
  else if nano % 1000 = 0 then "." ++ padded 6 (nano / 1000)
  else "." ++ padded 9 nano

namespace Instant

/-- The date of an instant in figures. -/
def dateText (t : Instant) : String :=
  yearText t.date.year ++ "-" ++ padded 2 t.date.month ++ "-" ++ padded 2 t.date.day

/-- The time of day of an instant in figures. -/
def timeText (t : Instant) : String :=
  let s := t.secondOfDay
  let leap := if t.isLeap then 1 else 0
  padded 2 (s / 3600) ++ ":" ++ padded 2 (s / 60 % 60) ++ ":" ++ padded 2 (s % 60 + leap) ++
    fractionText (t.nano - leap * nanosPerSecond)

/-- An instant as it stands in documents. -/
def document (t : Instant) : String := t.dateText ++ "T" ++ t.timeText ++ "Z"

/-- An instant as it stands in messages. -/
def display (t : Instant) : String := t.dateText ++ " " ++ t.timeText ++ " UTC"

end Instant

end Telemetry.Time
