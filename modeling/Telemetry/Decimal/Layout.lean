import Telemetry.Decimal.Shortest

/-!
The two ways in which numbers are written out.

Both use the fewest digits that read back. A label is always positional and shows a fraction only
where there is one. A number in a document is positional as long as its decimal exponent lies
between -5 and 15, keeps a fraction in any case, and else has an exponent with its sign.
-/

set_option autoImplicit false

namespace Telemetry.Decimal

/-! ## Placing the point -/

/-- The digits of `n`, as text. -/
def digitsOf (n : Nat) : List Char := Nat.toDigits 10 n

/-- The decimal in positional form, with `whole` behind a number that has no fraction. -/
def Scaled.positional (d : Scaled) (whole : String) : String :=
  let ds := digitsOf d.digits
  if 0 ≤ d.exponent then
    String.ofList (ds ++ List.replicate d.exponent.toNat '0') ++ whole
  else
    let places := (-d.exponent).toNat
    let ds := List.replicate (places + 1 - ds.length) '0' ++ ds
    let split := ds.length - places
    String.ofList (ds.take split ++ '.' :: ds.drop split)

/-- The exponent of the decimal when one digit stands before the point. -/
def Scaled.leading (d : Scaled) : Int := d.exponent + (digitsOf d.digits).length - 1

/-- The decimal with one digit before the point and a signed exponent. -/
def Scaled.scientific (d : Scaled) : String :=
  let e := d.leading
  let sign := if e < 0 then "-" else "+"
  let fraction :=
    match (digitsOf d.digits).drop 1 with
    | [] => ""
    | ds => "." ++ String.ofList ds
  String.ofList ((digitsOf d.digits).take 1) ++ fraction ++ "e" ++ sign ++ toString e.natAbs

/-! ## Labels -/

/-- A sign, where the number has one. -/
def signed (negative : Bool) (text : String) : String := if negative then "-" ++ text else text

/-- A double as the text of a label. -/
def label (x : Float) : String :=
  match Reading.ofFloat x with
  | .notANumber => "NaN"
  | .infinite negative => signed negative "inf"
  | .finite negative 0 _ => signed negative "0"
  | .finite negative m e => signed negative ((shortest m e .up).positional "")

/-! ## Documents -/

/-- A finite double as a number of a document; none for the others. -/
def document? (x : Float) : Option String :=
  match Reading.ofFloat x with
  | .notANumber | .infinite _ => none
  | .finite negative 0 _ => some (signed negative "0.0")
  | .finite negative m e =>
    let d := shortest m e .even
    some (signed negative
      (if -5 ≤ d.leading ∧ d.leading ≤ 15 then d.positional ".0" else d.scientific))

end Telemetry.Decimal
