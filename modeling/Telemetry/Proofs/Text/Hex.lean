import Telemetry.Identifier
import Telemetry.Proofs.Text.Utf8

/-!
Hexadecimal digits: they are written in lower case, and in either case they are read as the bytes
that they were written for.

Nothing else is read (`decode?_eq_some_iff`), so a text is the digits of some bytes exactly if its
bytes in UTF-8 are digits and even in number (`Identifier.exists_decode_iff`). A character beyond
ASCII has no byte that is a digit, so it does not matter that such a character may lie across two
pairs of bytes.
-/

set_option autoImplicit false

namespace Telemetry.Text.Hex

/-- Whether a text has the digits of some bytes, in either case. -/
def IsHex (cs : List Char) (bs : List UInt8) : Prop := cs.map Char.toLower = encode bs

theorem toNat_digit {n : Nat} (hn : n < 16) :
    (digit n).toNat = if n < 10 then 48 + n else 87 + n := by
  have hall : ∀ m < 16, (digit m).toNat = if m < 10 then 48 + m else 87 + m := by decide
  exact hall n hn

/-- The characters that are some digit in lower case. -/
theorem eq_digit_or_upper {c : Char} {n : Nat} (hn : n < 16) (h : c.toLower = digit n) :
    c = digit n ∨ (10 ≤ n ∧ c.toNat = 55 + n) := by
  delta Char.toLower at h
  split at h
  next hupper =>
    right
    -- an upper-case letter lies 32 below its lower-case form
    have hgreatest : c.toNat ≤ 90 := UInt32.le_iff_toNat_le.1 hupper.2
    have hleast : 65 ≤ c.toNat := UInt32.le_iff_toNat_le.1 hupper.1
    have hlower := congrArg Char.toNat h
    have hsum : (c.val + ('a'.val - 'A'.val)).toNat = c.toNat + 32 := by
      rw [UInt32.toNat_add]
      exact Nat.mod_eq_of_lt (by show c.toNat + 32 < 2 ^ 32; omega)
    rw [toNat_digit hn] at hlower
    have hvalue : c.toNat + 32 = if n < 10 then 48 + n else 87 + n := hsum.symm.trans hlower
    split at hvalue <;> omega
  next => exact .inl h

/-- A digit in either case has its value, and one byte. -/
theorem value?_of_toLower {c : Char} {n : Nat} (hn : n < 16) (h : c.toLower = digit n) :
    value? c = some n ∧ c.utf8Size = 1 := by
  have hlower : ∀ m < 16, value? (digit m) = some m ∧ (digit m).utf8Size = 1 := by decide
  have hupper : ∀ m < 16, 10 ≤ m →
      value? (Char.ofNat (55 + m)) = some m ∧ (Char.ofNat (55 + m)).utf8Size = 1 := by decide
  obtain rfl | ⟨hle, hc⟩ := eq_digit_or_upper hn h
  · exact hlower n hn
  · rw [← Char.ofNat_toNat c, hc]
    exact hupper n hn hle

/-- The digits of a byte are two characters. -/
theorem isHex_cons {cs : List Char} {b : UInt8} {bs : List UInt8} (h : IsHex cs (b :: bs)) :
    ∃ hi lo rest, cs = hi :: lo :: rest ∧ hi.toLower = digit (b.toNat / 16) ∧
      lo.toLower = digit (b.toNat % 16) ∧ IsHex rest bs := by
  rw [IsHex, encode, List.flatMap_cons, ← encode, encodeByte, List.cons_append, List.cons_append,
    List.nil_append] at h
  obtain ⟨hi, cs, rfl, hhi, h⟩ := List.map_eq_cons_iff.1 h
  obtain ⟨lo, rest, rfl, hlo, hrest⟩ := List.map_eq_cons_iff.1 h
  exact ⟨hi, lo, rest, rfl, hhi, hlo, hrest⟩

/-- Digits of bytes are decoded to them, and are twice as many. -/
theorem decode?_of_isHex {cs : List Char} {bs : List UInt8} (h : IsHex cs bs) :
    decode? cs = some bs ∧ Utf8.size cs = 2 * bs.length := by
  induction bs generalizing cs with
  | nil =>
    rw [List.map_eq_nil_iff.1 h]
    exact ⟨rfl, rfl⟩
  | cons b bs ih =>
    obtain ⟨hi, lo, rest, rfl, hhi, hlo, hrest⟩ := isHex_cons h
    have hb : b.toNat < 256 := b.toNat_lt
    obtain ⟨hvhi, hshi⟩ := value?_of_toLower (by omega) hhi
    obtain ⟨hvlo, hslo⟩ := value?_of_toLower (by omega) hlo
    obtain ⟨hdecode, hsize⟩ := ih hrest
    -- a byte is put together again from its two halves
    have hbyte : UInt8.ofNat (16 * (b.toNat / 16) + b.toNat % 16) = b := by
      rw [Nat.div_add_mod]
      exact UInt8.ofNat_toNat
    constructor
    · rw [decode?, hvhi, hvlo, hdecode]
      exact congrArg (fun x => some (x :: bs)) hbyte
    · rw [Utf8.size, List.foldr_cons, List.foldr_cons, hshi, hslo,
        ← Utf8.size, hsize, List.length_cons]
      omega

/-- What has a value is a digit of it, and a character of ASCII. -/
theorem of_value? {c : Char} {n : Nat} (h : value? c = some n) :
    n < 16 ∧ c.toLower = digit n ∧ c.toNat < 128 := by
  have hall : ∀ k < 128, ∀ m ∈ value? (Char.ofNat k),
      m < 16 ∧ (Char.ofNat k).toLower = digit m := by decide
  have hascii : c.toNat < 128 := by
    have hbound {greatest : Char} (hle : c ≤ greatest) : c.toNat ≤ greatest.toNat := hle
    simp only [value?, Bool.and_eq_true, decide_eq_true_eq] at h
    split at h
    next hc => exact Nat.lt_of_le_of_lt (hbound hc.2) (by decide)
    next =>
      split at h
      next hc => exact Nat.lt_of_le_of_lt (hbound hc.2) (by decide)
      next =>
        split at h
        next hc => exact Nat.lt_of_le_of_lt (hbound hc.2) (by decide)
        next => cases h
  have hc := hall c.toNat hascii n (by rwa [Char.ofNat_toNat])
  rw [Char.ofNat_toNat] at hc
  exact ⟨hc.1, hc.2, hascii⟩

/-- What is decoded are digits of bytes. -/
theorem isHex_of_decode? {cs : List Char} {bs : List UInt8} (h : decode? cs = some bs) :
    IsHex cs bs := by
  fun_induction decode? cs generalizing bs with
  | case1 =>
    cases h
    rfl
  | case2 => cases h
  | case3 hi lo rest ih =>
    obtain ⟨high, hhigh, h⟩ := Option.bind_eq_some_iff.1 h
    obtain ⟨low, hlow, h⟩ := Option.bind_eq_some_iff.1 h
    obtain ⟨bytes, hbytes, h⟩ := Option.bind_eq_some_iff.1 h
    obtain rfl := Option.some.inj h
    obtain ⟨hhi, hhiLower, -⟩ := of_value? hhigh
    obtain ⟨hlo, hloLower, -⟩ := of_value? hlow
    -- the halves of the byte are the values of its digits
    have hbyte : (UInt8.ofNat (16 * high + low)).toNat = 16 * high + low :=
      Nat.mod_eq_of_lt (by omega)
    have hupper : (16 * high + low) / 16 = high := by omega
    have hunder : (16 * high + low) % 16 = low := by omega
    have hrest : rest.map Char.toLower = encode bytes := ih hbytes
    have hencode : encode (UInt8.ofNat (16 * high + low) :: bytes) =
        [digit high, digit low] ++ encode bytes := by
      rw [encode, List.flatMap_cons, encodeByte, hbyte, hupper, hunder]
      rfl
    rw [IsHex, List.map_cons, List.map_cons, hhiLower, hloLower, hrest, hencode]
    rfl

/-- **What is read are digits of the bytes, in either case, and nothing else.** -/
theorem decode?_eq_some_iff {cs : List Char} {bs : List UInt8} :
    decode? cs = some bs ↔ IsHex cs bs :=
  ⟨isHex_of_decode?, fun h => (decode?_of_isHex h).1⟩

/-- Digits are read if they are even in number. -/
theorem exists_decode?_iff {cs : List Char} :
    (∃ bs, decode? cs = some bs) ↔ cs.length % 2 = 0 ∧ ∀ c ∈ cs, (value? c).isSome := by
  fun_induction decode? cs with
  | case1 => simp
  | case2 => simp
  | case3 hi lo rest ih =>
    have hlength : (hi :: lo :: rest).length % 2 = rest.length % 2 := by
      rw [List.length_cons, List.length_cons, Nat.add_assoc, Nat.add_mod_right]
    rw [hlength, List.forall_mem_cons, List.forall_mem_cons, and_left_comm,
      and_left_comm (b := (value? lo).isSome = true), ← ih]
    cases value? hi with
    | none => simp
    | some high =>
      cases value? lo with
      | none => simp
      | some low => cases decode? rest <;> simp

/-- Whether a byte is a digit of ASCII, in either case. -/
def isDigitByte (b : UInt8) : Bool :=
  (0x30 ≤ b && b ≤ 0x39) || (0x61 ≤ b && b ≤ 0x66) || (0x41 ≤ b && b ≤ 0x46)

/-- A digit is a byte below 128. -/
theorem isDigitByte_lt {b : UInt8} (h : isDigitByte b = true) : b.toNat < 0x80 := by
  simp only [isDigitByte, Bool.or_eq_true, Bool.and_eq_true, decide_eq_true_eq,
    UInt8.le_iff_toNat_le, UInt8.reduceToNat] at h
  omega

/-- The bytes of a character are digits if it is one, and then it has one byte. -/
theorem forall_isDigitByte_iff (c : Char) :
    (∀ b ∈ Utf8.encodeChar c, isDigitByte b = true) ↔ (value? c).isSome := by
  have hall : ∀ k < 128, isDigitByte k.toUInt8 = (value? (Char.ofNat k)).isSome := by decide
  by_cases hascii : c.toNat < 128
  · rw [Utf8.encodeChar, if_pos hascii, List.forall_mem_singleton, hall _ hascii,
      Char.ofNat_toNat]
  · constructor
    · obtain ⟨b, bs, hbytes, -⟩ := Utf8.head_encodeChar c []
      intro h
      have hmem : b ∈ Utf8.encodeChar c := hbytes ▸ List.mem_cons_self
      have hlt := isDigitByte_lt (h b hmem)
      rcases Utf8.of_mem_encodeChar hmem with heq | hle <;> omega
    · intro h
      obtain ⟨n, hn⟩ := Option.isSome_iff_exists.1 h
      exact absurd (of_value? hn).2.2 hascii

/-- Digits have one byte each. -/
theorem length_encode_of_digits {cs : List Char} (h : ∀ c ∈ cs, (value? c).isSome) :
    (Utf8.encode cs).length = cs.length := by
  induction cs with
  | nil => rfl
  | cons c cs ih =>
    obtain ⟨hc, hcs⟩ := List.forall_mem_cons.1 h
    obtain ⟨n, hn⟩ := Option.isSome_iff_exists.1 hc
    rw [Utf8.encode, List.flatMap_cons, Utf8.encodeChar, if_pos (of_value? hn).2.2, ← Utf8.encode,
      List.length_append, ih hcs, List.length_singleton, List.length_cons, Nat.add_comm]

/-- The digits in which bytes are written. -/
def lowerDigits : List Char := "0123456789abcdef".toList

/-- The digits that are written are in lower case. -/
theorem digit_mem_lowerDigits : ∀ n < 16, digit n ∈ lowerDigits := by decide

theorem mem_lowerDigits_of_mem_encode {bs : List UInt8} {c : Char} (h : c ∈ encode bs) :
    c ∈ lowerDigits := by
  obtain ⟨b, -, hc⟩ := List.mem_flatMap.1 h
  have hb : b.toNat < 256 := b.toNat_lt
  rw [encodeByte, List.mem_cons, List.mem_singleton] at hc
  rcases hc with rfl | rfl
  · exact digit_mem_lowerDigits _ (by omega)
  · exact digit_mem_lowerDigits _ (by omega)

theorem toLower_digit : ∀ n < 16, (digit n).toLower = digit n := by decide

/-- Bytes are written in lower case. -/
theorem map_toLower_encode (bs : List UInt8) : (encode bs).map Char.toLower = encode bs := by
  have hbyte (b : UInt8) : (encodeByte b).map Char.toLower = encodeByte b := by
    have hb : b.toNat < 256 := b.toNat_lt
    rw [encodeByte, List.map_cons, List.map_singleton, toLower_digit _ (by omega),
      toLower_digit _ (by omega)]
  rw [encode, List.map_flatMap]
  simp only [hbyte]

end Telemetry.Text.Hex

namespace Telemetry.Identifier

open Text.Hex (IsHex)

/-- The digits of an identifier, in either case, are read as its bytes. -/
theorem decode_of_isHex {text : String} {bytes : List UInt8} (h : IsHex text.toList bytes) :
    decode text = .ok bytes := by
  obtain ⟨hdecode, hsize⟩ := Text.Hex.decode?_of_isHex h
  have heven : ¬ Text.Utf8.size text.toList % 2 ≠ 0 := by omega
  rw [decode, if_neg heven, hdecode]

/-- **Digits of bytes are read as these bytes, and nothing else is.** -/
theorem decode_eq_ok_iff {text : String} {bytes : List UInt8} :
    decode text = .ok bytes ↔ IsHex text.toList bytes := by
  refine ⟨fun h => ?_, decode_of_isHex⟩
  rw [decode] at h
  split at h
  next => cases h
  next =>
    split at h
    next bytes' hdecode =>
      cases h
      exact Text.Hex.isHex_of_decode? hdecode
    next => cases h

/-- **A text is read exactly if its bytes are digits and even in number.** -/
theorem exists_decode_iff {text : String} :
    (∃ bytes, decode text = .ok bytes) ↔
      (Text.Utf8.encode text.toList).length % 2 = 0 ∧
        ∀ b ∈ Text.Utf8.encode text.toList, Text.Hex.isDigitByte b = true := by
  have hbytes : (∀ b ∈ Text.Utf8.encode text.toList, Text.Hex.isDigitByte b = true) ↔
      ∀ c ∈ text.toList, (Text.Hex.value? c).isSome := by
    simp only [Text.Utf8.encode, List.forall_mem_flatMap, Text.Hex.forall_isDigitByte_iff]
  simp only [decode_eq_ok_iff, ← Text.Hex.decode?_eq_some_iff, Text.Hex.exists_decode?_iff]
  rw [hbytes]
  exact and_congr_left fun h => by rw [Text.Hex.length_encode_of_digits h]

theorem toList_toLower (text : String) : text.toLower.toList = text.toList.map Char.toLower := by
  delta String.toLower
  exact String.toList_map

/-- What an identifier in digits is stored as: the digits in lower case, or nothing without any. -/
def stored (text : String) : Option String := if text.isEmpty then none else some text.toLower

/-- What is read is written in lower case. -/
theorem encode?_of_decode {text : String} {bytes : List UInt8} (h : decode text = .ok bytes) :
    encode? bytes = stored text := by
  have hhex : IsHex text.toList bytes := decode_eq_ok_iff.1 h
  have hlower : text.toLower = String.ofList (Text.Hex.encode bytes) := by
    rw [← String.toList_inj, toList_toLower, String.toList_ofList]
    exact hhex
  have hempty : text.isEmpty = bytes.isEmpty := by
    rw [Bool.eq_iff_iff, String.isEmpty_iff, List.isEmpty_iff, ← String.toList_eq_nil_iff]
    cases bytes with
    | nil => simpa using List.map_eq_nil_iff.1 hhex
    | cons b bs =>
      obtain ⟨hi, lo, rest, htext, -⟩ := Text.Hex.isHex_cons hhex
      simp [htext]
  rw [encode?, stored, hempty, hlower]

/-- What is written is read, and so it is if some of its digits change their case. -/
theorem decode_of_encode? {bytes : List UInt8} {text text' : String}
    (h : encode? bytes = some text) (hcase : text'.toLower = text.toLower) :
    decode text' = .ok bytes := by
  rw [encode?] at h
  split at h
  next => cases h
  next =>
    obtain rfl := Option.some.inj h
    have hdigits := congrArg String.toList hcase
    rw [toList_toLower, toList_toLower, String.toList_ofList,
      Text.Hex.map_toLower_encode] at hdigits
    exact decode_eq_ok_iff.2 hdigits

/-- Whether a text has some digits, and nothing but digits in lower case. -/
def IsDigits (text : String) : Prop := text ≠ "" ∧ ∀ c ∈ text.toList, c ∈ Text.Hex.lowerDigits

/-- What identifiers are written as. -/
theorem isDigits_of_encode? {bytes : List UInt8} {text : String} (h : encode? bytes = some text) :
    IsDigits text := by
  rw [encode?] at h
  cases bytes with
  | nil => cases h
  | cons b bs =>
    cases h
    refine ⟨fun hempty => ?_, fun c hc => ?_⟩
    · cases String.ofList_eq_empty_iff.1 hempty
    · rw [String.toList_ofList] at hc
      exact Text.Hex.mem_lowerDigits_of_mem_encode hc

end Telemetry.Identifier
