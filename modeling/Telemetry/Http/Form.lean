import Telemetry.Text.Hex
import Telemetry.Text.Integer
import Telemetry.Text.Utf8

/-!
Fields as the query of an address gives them: pairs of a name and a value, in which a plus sign
stands for a blank and a percent sign with two hexadecimal digits for a byte.
-/

set_option autoImplicit false

namespace Telemetry.Http.Form

/-! ## Texts -/

/-- The bytes that coded bytes stand for. A percent sign without two digits stands for itself. -/
def decodeBytes : List UInt8 → List UInt8
  | 0x2B :: rest => 0x20 :: decodeBytes rest
  | 0x25 :: a :: b :: rest =>
    match Text.Hex.value? (Char.ofNat a.toNat), Text.Hex.value? (Char.ofNat b.toNat) with
    | some high, some low => (16 * high + low).toUInt8 :: decodeBytes rest
    | _, _ => 0x25 :: decodeBytes (a :: b :: rest)
  | b :: rest => b :: decodeBytes rest
  | [] => []

/-- The text that coded bytes stand for. -/
def decodeText (bs : List UInt8) : String := String.ofList (Text.Utf8.decodeLossy (decodeBytes bs))

/-! ## Pairs -/

/-- The parts of a text between ampersands. -/
def parts : List UInt8 → List (List UInt8)
  | [] => [[]]
  | b :: rest =>
    if b = 0x26 then [] :: parts rest
    else
      match parts rest with
      | part :: more => (b :: part) :: more
      | [] => [[b]]

/-- A name and the value behind the first equals sign, which may be missing. -/
def pair (part : List UInt8) : String × String :=
  (decodeText (part.takeWhile (· ≠ 0x3D)), decodeText ((part.dropWhile (· ≠ 0x3D)).drop 1))

/-- The pairs of a text. -/
def pairs (text : String) : List (String × String) :=
  ((parts (Text.Utf8.encode text.toList)).filter fun p => !p.isEmpty).map pair

/-! ## Fields -/

/-- Why fields are refused. -/
inductive Fault where
  | duplicate (name : String)
  | notInteger (name : String)
  deriving DecidableEq, Repr

/-- The fault in words. -/
def Fault.message : Fault → String
  | .duplicate name => "duplicate field " ++ name
  | .notInteger name => "invalid integer in field " ++ name

/-- The value of a field, which may be given only once. -/
def field (fields : List (String × String)) (name : String) : Except Fault (Option String) :=
  match fields.filter fun f => f.1 == name with
  | [] => .ok none
  | [f] => .ok (some f.2)
  | _ => .error (.duplicate name)

/-- The value of a field as a whole number of 64 bits. -/
def integerField (fields : List (String × String)) (name : String) :
    Except Fault (Option Int) := do
  match ← field fields name with
  | none => return none
  | some text =>
    match Text.Integer.signed Text.Integer.maxSigned64 text.toList with
    | .ok n => return some n
    | .error _ => throw (.notInteger name)

end Telemetry.Http.Form
