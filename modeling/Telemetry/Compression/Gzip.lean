import Telemetry.Compression.Checksum
import Telemetry.Compression.Inflate

/-!
The gzip format: a header, compressed bytes, and a checksum with their number. One member is read;
what stands behind it is not looked at.
-/

set_option autoImplicit false

namespace Telemetry.Compression.Gzip

/-- Why bytes are no member of the format. -/
inductive Fault where
  | header
  | headerChecksum
  | blocks
  | checksum
  deriving DecidableEq, Repr

/-- The fault in words. -/
def Fault.message : Fault → String
  | .header => "invalid gzip header"
  | .headerChecksum => "wrong checksum of the header"
  | .blocks => "corrupt deflate stream"
  | .checksum => "wrong checksum or length of the data"

/-- A number of bytes, the lowest first. -/
def little (bs : List UInt8) : Nat := bs.foldr (fun b n => b.toNat + 256 * n) 0

/-- The bytes behind the first byte that is zero. -/
def behindZero? : List UInt8 → Option (List UInt8)
  | [] => none
  | b :: rest => if b = 0 then some rest else behindZero? rest

/-- The bytes behind `count` bytes. -/
def behind? (count : Nat) (bs : List UInt8) : Option (List UInt8) :=
  if bs.length < count then none else some (bs.drop count)

/-- The bytes behind an optional field, if a flag says that it is there. -/
def behindField? (flags bit : UInt8) (field : List UInt8 → Option (List UInt8))
    (bs : List UInt8) : Option (List UInt8) :=
  if flags &&& bit = 0 then some bs else field bs

/-- The bytes behind the fields of a header, up to its checksum: further data, a name and a
comment. -/
def behindFields? (flags : UInt8) (bs : List UInt8) : Option (List UInt8) := do
  let further (bs : List UInt8) : Option (List UInt8) := do
    let rest ← behind? 2 bs
    behind? (little (bs.take 2)) rest
  let bs ← behindField? flags 4 further bs
  let bs ← behindField? flags 8 behindZero? bs
  behindField? flags 16 behindZero? bs

/-- The bytes behind a header. -/
def behindHeader (bs : List UInt8) : Except Fault (List UInt8) := do
  match bs with
  | 0x1F :: 0x8B :: 8 :: flags :: _ =>
    if flags &&& 0xE0 ≠ 0 then throw .header
    match (behind? 10 bs).bind (behindFields? flags) with
    | none => throw .header
    | some rest =>
      if flags &&& 2 = 0 then return rest
      match behind? 2 rest with
      | none => throw .header
      | some behind =>
        let header := bs.take (bs.length - rest.length)
        if little (rest.take 2) = (checksum header).toNat % 65536 then return behind
        else throw .headerChecksum
  | _ => throw .header

/-- The data of the first member. -/
def decode (bs : List UInt8) : Except Fault (List UInt8) := do
  let body ← behindHeader bs
  match inflate? body with
  | none => throw .blocks
  | some (data, rest) =>
    if rest.length < 8 then throw .checksum
    if little (rest.take 4) = (checksum data).toNat ∧
        little ((rest.drop 4).take 4) = data.length % 0x100000000 then
      return data
    else throw .checksum

end Telemetry.Compression.Gzip
