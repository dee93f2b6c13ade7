/-!
Whole numbers in decimal digits, read within a given range.

Reading goes from the left and stops at the first fault: a character that is no digit, or the digit
with which the number leaves its range. So the fault of a text with two faults is the earlier one.
-/

set_option autoImplicit false

namespace Telemetry.Text.Integer

/-! ## Faults -/

/-- Why a text is no whole number of the range. -/
inductive Fault where
  | empty
  | invalidDigit
  | tooLarge
  | tooSmall
  deriving DecidableEq, Repr

/-- The fault in words. -/
def Fault.message : Fault → String
  | .empty => "cannot parse integer from empty string"
  | .invalidDigit => "invalid digit found in string"
  | .tooLarge => "number too large to fit in target type"
  | .tooSmall => "number too small to fit in target type"

/-! ## Reading -/

/-- The value of a decimal digit. -/
def digit? (c : Char) : Option Nat :=
  if '0' ≤ c && c ≤ '9' then some (c.toNat - 48) else none

/-- Reads digits onto `value`, which may not pass `limit`; `excess` is the fault when it does. -/
def digits (limit : Nat) (excess : Fault) : Nat → List Char → Except Fault Nat
  | value, [] => .ok value
  | value, c :: cs =>
    match digit? c with
    | none => .error .invalidDigit
    | some d =>
      if limit < 10 * value + d then .error excess else digits limit excess (10 * value + d) cs

/-- Reads one digit or more. -/
def digits1 (limit : Nat) (excess : Fault) (cs : List Char) : Except Fault Nat :=
  if cs.isEmpty then .error .invalidDigit else digits limit excess 0 cs

/-- A number from 0 to `limit`, with an optional plus sign. -/
def unsigned (limit : Nat) : List Char → Except Fault Nat
  | [] => .error .empty
  | '+' :: cs => digits1 limit .tooLarge cs
  | cs => digits1 limit .tooLarge cs

/-- A number of a two's complement word whose greatest value is `limit`, with an optional sign. -/
def signed (limit : Nat) : List Char → Except Fault Int
  | [] => .error .empty
  | '+' :: cs => (digits1 limit .tooLarge cs).map Int.ofNat
  | '-' :: cs => (digits1 (limit + 1) .tooSmall cs).map fun n => -Int.ofNat n
  | cs => (digits1 limit .tooLarge cs).map Int.ofNat

/-! ## Widths -/

/-- The greatest values of the word sizes in use. -/
def maxUnsigned32 : Nat := 0xFFFFFFFF
@[inherit_doc maxUnsigned32] def maxUnsigned64 : Nat := 0xFFFFFFFFFFFFFFFF
@[inherit_doc maxUnsigned32] def maxSigned32 : Nat := 0x7FFFFFFF
@[inherit_doc maxUnsigned32] def maxSigned64 : Nat := 0x7FFFFFFFFFFFFFFF

/-- Whether a number lies in the range of 64-bit signed words. -/
def fitsSigned64 (n : Int) : Bool := decide (-0x8000000000000000 ≤ n ∧ n < 0x8000000000000000)

end Telemetry.Text.Integer
