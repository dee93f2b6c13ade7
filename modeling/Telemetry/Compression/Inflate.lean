/-!
The reader of the DEFLATE format: blocks of bytes as they are, and blocks of prefix codes for bytes
and for copies of what was written before.

Bits are taken from the low end of each byte. A number of several bits has its lowest bit first, a
prefix code its highest.
-/

set_option autoImplicit false

namespace Telemetry.Compression

/-! ## Bits -/

/-- The bits that are left: bytes, of the first of which some bits are used up. -/
structure Bits where
  bytes : List UInt8
  used : Nat := 0

namespace Bits

/-- The next bit. -/
def next? (bits : Bits) : Option (Nat × Bits) :=
  match bits.bytes with
  | [] => none
  | b :: rest =>
    let bit := b.toNat / Nat.pow 2 bits.used % 2
    if bits.used = 7 then some (bit, ⟨rest, 0⟩) else some (bit, ⟨b :: rest, bits.used + 1⟩)

/-- A number of `count` bits. -/
def number? : Nat → Bits → Option (Nat × Bits)
  | 0, bits => some (0, bits)
  | count + 1, bits => do
    let (low, bits) ← bits.next?
    let (high, bits) ← number? count bits
    return (low + 2 * high, bits)

/-- The bytes behind the one that is begun. -/
def wholeBytes (bits : Bits) : List UInt8 :=
  if bits.used = 0 then bits.bytes else bits.bytes.tail

end Bits

/-! ## Prefix codes -/

/-- The greatest length of a code. -/
def maxCodeLength : Nat := 15

/-- A prefix code, in which codes of one length are consecutive numbers, and shorter codes come
first: how many codes have the lengths 1, 2, and so on, and the symbols in the order of their codes.
-/
structure PrefixCode where
  counts : List Nat
  symbols : Array Nat

namespace PrefixCode

/-- The lengths of codes from 1 on. -/
def lengths : List Nat := (List.range maxCodeLength).map (· + 1)

/-- How much of the room for codes is left behind each length; none where it does not suffice. -/
def room? (counts : List Nat) : Option Nat :=
  counts.foldlM (fun room count => if count ≤ 2 * room then some (2 * room - count) else none) 1

/-- The code with the given lengths of the codes of symbols, a length of zero standing for no code.
The codes have to use all the room there is, unless there is one at most. -/
def ofLengths? (ls : List Nat) : Option PrefixCode := do
  let counts := lengths.map fun l => ls.count l
  let symbols := lengths.flatMap fun l =>
    ls.zipIdx.filterMap fun (length, symbol) => if length = l then some symbol else none
  let room ← room? counts
  if room = 0 ∨ symbols.length ≤ 1 then return ⟨counts, symbols.toArray⟩ else none

/-- Reads a symbol: `code` is what has been read, `first` the first code of the length at hand, and
`index` the place of its symbol. -/
def symbolFrom? (symbols : Array Nat) (code first index : Nat) :
    List Nat → Bits → Option (Nat × Bits)
  | [], _ => none
  | count :: counts, bits => do
    let (bit, bits) ← bits.next?
    let code := code + bit
    if code < first + count then
      let symbol ← symbols[index + (code - first)]?
      return (symbol, bits)
    else
      symbolFrom? symbols (2 * code) (2 * (first + count)) (index + count) counts bits

/-- Reads a symbol. -/
def symbol? (c : PrefixCode) (bits : Bits) : Option (Nat × Bits) :=
  symbolFrom? c.symbols 0 0 0 c.counts bits

end PrefixCode

/-! ## Tables of the format -/

/-- Bases of numbers, each with the count of bits that are added. -/
def bases (start : Nat) (extra : List Nat) : List (Nat × Nat) :=
  (extra.foldl (fun (found, base) bits => ((base, bits) :: found, base + Nat.pow 2 bits))
    ([], start)).1.reverse

/-- The lengths of copies, by their symbols from 257 on. -/
def copyLengths : List (Nat × Nat) :=
  bases 3 [0, 0, 0, 0, 0, 0, 0, 0, 1, 1, 1, 1, 2, 2, 2, 2, 3, 3, 3, 3, 4, 4, 4, 4, 5, 5, 5, 5] ++
    [(258, 0)]

/-- The distances of copies, by their symbols. -/
def copyDistances : List (Nat × Nat) :=
  bases 1 [0, 0, 0, 0, 1, 1, 2, 2, 3, 3, 4, 4, 5, 5, 6, 6, 7, 7, 8, 8, 9, 9, 10, 10, 11, 11, 12,
    12, 13, 13]

/-- The order in which the lengths of the code for lengths are given. -/
def lengthOrder : List Nat := [16, 17, 18, 0, 8, 7, 9, 6, 10, 5, 11, 4, 12, 3, 13, 2, 14, 1, 15]

/-- The code for bytes and lengths of copies in a block that brings none. -/
def fixedSymbols? : Option PrefixCode :=
  PrefixCode.ofLengths? (List.replicate 144 8 ++ List.replicate 112 9 ++ List.replicate 24 7 ++
    List.replicate 8 8)

/-- The code for distances in a block that brings none. -/
def fixedDistances? : Option PrefixCode :=
  PrefixCode.ofLengths? (List.replicate 32 5)

/-! ## Blocks -/

/-- A number from a table: a base, and the bits that are added to it. -/
def extended? (table : List (Nat × Nat)) (symbol : Nat) (bits : Bits) : Option (Nat × Bits) := do
  let (base, extra) ← table[symbol]?
  let (n, bits) ← bits.number? extra
  return (base + n, bits)

/-- Appends `length` bytes, each the one that lies `distance` before its place. -/
def copy (distance : Nat) : Nat → Array UInt8 → Array UInt8
  | 0, out => out
  | length + 1, out => copy distance length (out.push (out[out.size - distance]?.getD 0))

/-- Reads the symbols of a block onto what is written. Each symbol takes a bit or more, so the
number of bits is fuel enough. -/
def symbols? (literals distances : PrefixCode) :
    Nat → Array UInt8 → Bits → Option (Array UInt8 × Bits)
  | 0, _, _ => none
  | fuel + 1, out, bits => do
    let (symbol, bits) ← literals.symbol? bits
    if symbol < 256 then symbols? literals distances fuel (out.push symbol.toUInt8) bits
    else if symbol = 256 then return (out, bits)
    else
      let (length, bits) ← extended? copyLengths (symbol - 257) bits
      let (symbol, bits) ← distances.symbol? bits
      let (distance, bits) ← extended? copyDistances symbol bits
      if out.size < distance then none
      else symbols? literals distances fuel (copy distance length out) bits

/-- Reads `count` lengths of codes, in reverse, where a symbol may stand for several. -/
def lengths? (code : PrefixCode) (count : Nat) :
    Nat → List Nat → Bits → Option (List Nat × Bits)
  | 0, _, _ => none
  | fuel + 1, found, bits =>
    if found.length = count then some (found, bits)
    else if count < found.length then none
    else do
      let (symbol, bits) ← code.symbol? bits
      if symbol < 16 then lengths? code count fuel (symbol :: found) bits
      else
        let (length, base, extra) ←
          match symbol with
          | 16 => found.head?.map fun l => (l, 3, 2)
          | 17 => some (0, 3, 3)
          | _ => some (0, 11, 7)
        let (n, bits) ← bits.number? extra
        lengths? code count fuel (List.replicate (base + n) length ++ found) bits

/-- Reads `count` numbers of three bits. -/
def triples? : Nat → Bits → Option (List Nat × Bits)
  | 0, bits => some ([], bits)
  | count + 1, bits => do
    let (n, bits) ← bits.number? 3
    let (ns, bits) ← triples? count bits
    return (n :: ns, bits)

/-- Reads the two codes that a block brings. -/
def codes? (bits : Bits) : Option (PrefixCode × PrefixCode × Bits) := do
  let (literals, bits) ← bits.number? 5
  let (distances, bits) ← bits.number? 5
  let (lengths, bits) ← bits.number? 4
  let literals := literals + 257
  let distances := distances + 1
  if 286 < literals ∨ 30 < distances then none
  else
    let (given, bits) ← triples? (lengths + 4) bits
    let given := lengthOrder.zip given
    let code ← PrefixCode.ofLengths? ((List.range 19).map fun s => (given.lookup s).getD 0)
    let count := literals + distances
    let (found, bits) ← lengths? code count (count + 1) [] bits
    let all := found.reverse
    let literalCode ← PrefixCode.ofLengths? (all.take literals)
    let distanceCode ← PrefixCode.ofLengths? (all.drop literals)
    return (literalCode, distanceCode, bits)

/-- Reads a block of bytes as they are: their number, its complement, and the bytes. -/
def plain? (out : Array UInt8) (bits : Bits) : Option (Array UInt8 × Bits) :=
  match bits.wholeBytes with
  | a :: b :: c :: d :: rest =>
    let count := a.toNat + 256 * b.toNat
    if count + (c.toNat + 256 * d.toNat) ≠ 0xFFFF ∨ rest.length < count then none
    else some (out ++ (rest.take count).toArray, ⟨rest.drop count, 0⟩)
  | _ => none

/-- Reads a block onto what is written, and says whether it is the last one. -/
def block? (out : Array UInt8) (bits : Bits) : Option (Bool × Array UInt8 × Bits) := do
  let (last, bits) ← bits.next?
  let (kind, bits) ← bits.number? 2
  let fuel := 8 * bits.bytes.length + 1
  let (out, bits) ←
    match kind with
    | 0 => plain? out bits
    | 1 => do symbols? (← fixedSymbols?) (← fixedDistances?) fuel out bits
    | 2 => do
      let (literals, distances, bits) ← codes? bits
      symbols? literals distances fuel out bits
    | _ => none
  return (last == 1, out, bits)

/-- Reads blocks up to the last one. -/
def blocks? : Nat → Array UInt8 → Bits → Option (Array UInt8 × Bits)
  | 0, _, _ => none
  | fuel + 1, out, bits => do
    let (last, out, bits) ← block? out bits
    if last then return (out, bits) else blocks? fuel out bits

/-- What compressed bytes stand for, and the bytes behind them. -/
def inflate? (bs : List UInt8) : Option (List UInt8 × List UInt8) := do
  let (out, bits) ← blocks? (8 * bs.length + 1) #[] ⟨bs, 0⟩
  return (out.toList, bits.wholeBytes)

end Telemetry.Compression
