/-!
The cyclic checksum of 32 bits over bytes, lowest bit first.
-/

set_option autoImplicit false

namespace Telemetry.Compression

/-- The divisor of the checksum, its bits reversed. -/
def checksumDivisor : UInt32 := 0xEDB88320

/-- One step of the division. -/
def checksumStep (c : UInt32) : UInt32 :=
  if c &&& 1 = 1 then (c >>> 1) ^^^ checksumDivisor else c >>> 1

/-- Adds a byte to a remainder. -/
def checksumByte (c : UInt32) (b : UInt8) : UInt32 :=
  Nat.repeat checksumStep 8 (c ^^^ b.toUInt32)

/-- The checksum of bytes. -/
def checksum (bs : List UInt8) : UInt32 := bs.foldl checksumByte 0xFFFFFFFF ^^^ 0xFFFFFFFF

end Telemetry.Compression
