import Telemetry.Error
import Telemetry.Text.Hex
import Telemetry.Text.Utf8

/-!
Identifiers of traces and spans: byte sequences on the wire, hexadecimal digits in the store.
-/

set_option autoImplicit false

namespace Telemetry.Identifier

/-- The digits of an identifier; the empty one has none. -/
def encode? (bytes : List UInt8) : Option String :=
  if bytes.isEmpty then none else some (String.ofList (Text.Hex.encode bytes))

/-- The bytes whose digits a text holds, in either case. The length that has to be even is that of
the text in UTF-8. -/
def decode (text : String) : Except DecodeFault (List UInt8) :=
  if Text.Utf8.size text.toList % 2 ≠ 0 then .error (.oddHex text)
  else
    match Text.Hex.decode? text.toList with
    | some bytes => .ok bytes
    | none => .error (.invalidHex text)

end Telemetry.Identifier
