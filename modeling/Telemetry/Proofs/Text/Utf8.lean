import Mathlib.Tactic.SplitIfs
import Telemetry.Text.Utf8

/-!
What is written in UTF-8 is read again.

A character that stands at the head of a byte sequence is the one that is read there, whatever
follows (`head_encodeChar`). The four widths are distinguished by their first byte; the conditions
on the second byte are those under which a width is not too long for its character.
-/

set_option autoImplicit false

namespace Telemetry.Text.Utf8

theorem toNat_toUInt8 {n : Nat} (h : n < 256) : n.toUInt8.toNat = n := Nat.mod_eq_of_lt h

/-- The byte that carries six bits of a character. -/
theorem isTail_toUInt8 (n : Nat) : isTail (0x80 + n % 0x40).toUInt8 = true := by
  have hn : (0x80 + n % 0x40).toUInt8.toNat = 0x80 + n % 0x40 := toNat_toUInt8 (by omega)
  simp only [isTail, Bool.and_eq_true, decide_eq_true_eq, UInt8.le_iff_toNat_le, hn,
    UInt8.reduceToNat]
  omega

/-- A byte behind the first one carries six bits. -/
theorem tailBits_toUInt8 (n : Nat) : tailBits (0x80 + n % 0x40).toUInt8 = n % 0x40 := by
  rw [tailBits, toNat_toUInt8 (by omega)]
  omega

/-- The second byte is bounded more narrowly behind four first bytes. -/
theorem mayFollow_iff {first second : UInt8} :
    mayFollow first second = true ↔ 0x80 ≤ second.toNat ∧ second.toNat ≤ 0xBF ∧
      (first.toNat = 0xE0 → 0xA0 ≤ second.toNat) ∧ (first.toNat = 0xED → second.toNat ≤ 0x9F) ∧
      (first.toNat = 0xF0 → 0x90 ≤ second.toNat) ∧ (first.toNat = 0xF4 → second.toNat ≤ 0x8F) := by
  simp only [mayFollow, isTail, beq_iff_eq, ← UInt8.toNat_inj, UInt8.reduceToNat]
  split_ifs <;>
    simp only [Bool.and_eq_true, decide_eq_true_eq, UInt8.le_iff_toNat_le, UInt8.reduceToNat] <;>
    omega

/-! ## Characters by their width -/

variable {first second third fourth : UInt8} {rest : List UInt8}

/-- A first byte below 128 is a character. -/
theorem head_one (h : first.toNat < 0x80) : head first rest = .char (Char.ofNat first.toNat) 1 := by
  rw [head.eq_def]
  simp only [h, if_true]

/-- A first byte from `C2` on opens a character of more bytes. -/
theorem head_opening (first : UInt8) (h : 0xC2 ≤ first.toNat ∧ first.toNat ≤ 0xF4) :
    ¬ first.toNat < 0x80 ∧
      (decide (first.toNat < 0xC2) || decide (0xF4 < first.toNat)) = false := by
  rw [Bool.or_eq_false_iff, decide_eq_false_iff_not, decide_eq_false_iff_not]
  omega

/-- A first byte from 194 on takes one more. -/
theorem head_two (h : 0xC2 ≤ first.toNat ∧ first.toNat < 0xE0)
    (hsecond : mayFollow first second = true) :
    head first (second :: rest) =
      .char (Char.ofNat (first.toNat % 0x20 * 0x40 + tailBits second)) 2 := by
  obtain ⟨hlow, hrange⟩ := head_opening first (by omega)
  rw [head.eq_def]
  simp only [hlow, hrange, hsecond, h.2, Bool.not_true, Bool.false_eq_true, if_true, if_false]

/-- A first byte from 224 on takes two more. -/
theorem head_three (h : 0xE0 ≤ first.toNat ∧ first.toNat < 0xF0)
    (hsecond : mayFollow first second = true) (hthird : isTail third = true) :
    head first (second :: third :: rest) =
      .char (Char.ofNat (first.toNat % 0x10 * 0x1000 + tailBits second * 0x40 + tailBits third))
        3 := by
  obtain ⟨hlow, hrange⟩ := head_opening first (by omega)
  have hwide : ¬ first.toNat < 0xE0 := by omega
  rw [head.eq_def]
  simp only [hlow, hrange, hsecond, hthird, hwide, h.2, Bool.not_true, Bool.false_eq_true, if_true,
    if_false]

/-- A first byte from 240 to 244 takes three more. -/
theorem head_four (h : 0xF0 ≤ first.toNat ∧ first.toNat ≤ 0xF4)
    (hsecond : mayFollow first second = true) (hthird : isTail third = true)
    (hfourth : isTail fourth = true) :
    head first (second :: third :: fourth :: rest) =
      .char (Char.ofNat (first.toNat % 8 * 0x40000 + tailBits second * 0x1000 +
        tailBits third * 0x40 + tailBits fourth)) 4 := by
  obtain ⟨hlow, hrange⟩ := head_opening first (by omega)
  have hwide : ¬ first.toNat < 0xE0 := by omega
  have hwider : ¬ first.toNat < 0xF0 := by omega
  rw [head.eq_def]
  simp only [hlow, hrange, hsecond, hthird, hfourth, hwide, hwider, Bool.not_true,
    Bool.false_eq_true, if_false]

/-! ## Texts -/

/-- The character written at the head of a byte sequence is read there. -/
theorem head_encodeChar (c : Char) (rest : List UInt8) :
    ∃ b bs, encodeChar c = b :: bs ∧ head b (bs ++ rest) = .char c (bs.length + 1) := by
  have hvalid : c.toNat < 0xD800 ∨ (0xDFFF < c.toNat ∧ c.toNat < 0x110000) := c.valid
  have hself : Char.ofNat c.toNat = c := Char.ofNat_toNat c
  generalize hn : c.toNat = n at hvalid hself
  rw [encodeChar, hn]
  -- one case per length; in each the bits taken from the bytes make the number of the character
  split_ifs with h1 h2 h3
  · have hfirst : n.toUInt8.toNat = n := toNat_toUInt8 (by omega)
    refine ⟨_, _, rfl, (head_one (by omega)).trans ?_⟩
    rw [hfirst, hself]
    rfl
  · have hfirst : (0xC0 + n / 0x40).toUInt8.toNat = 0xC0 + n / 0x40 := toNat_toUInt8 (by omega)
    have hsecond := toNat_toUInt8 (n := 0x80 + n % 0x40) (by omega)
    have hbits : (0xC0 + n / 0x40) % 0x20 * 0x40 + n % 0x40 = n := by omega
    refine ⟨_, _, rfl, (head_two (by omega) (mayFollow_iff.2 (by omega))).trans ?_⟩
    rw [hfirst, tailBits_toUInt8, hbits, hself]
    rfl
  · have hfirst : (0xE0 + n / 0x1000).toUInt8.toNat = 0xE0 + n / 0x1000 := toNat_toUInt8 (by omega)
    have hsecond := toNat_toUInt8 (n := 0x80 + n / 0x40 % 0x40) (by omega)
    have hbits : (0xE0 + n / 0x1000) % 0x10 * 0x1000 + n / 0x40 % 0x40 * 0x40 + n % 0x40 = n := by
      omega
    refine ⟨_, _, rfl, (head_three (by omega) (mayFollow_iff.2 (by omega))
      (isTail_toUInt8 _)).trans ?_⟩
    rw [hfirst, tailBits_toUInt8, tailBits_toUInt8, hbits, hself]
    rfl
  · have hfirst : (0xF0 + n / 0x40000).toUInt8.toNat = 0xF0 + n / 0x40000 :=
      toNat_toUInt8 (by omega)
    have hsecond := toNat_toUInt8 (n := 0x80 + n / 0x1000 % 0x40) (by omega)
    have hbits : (0xF0 + n / 0x40000) % 8 * 0x40000 + n / 0x1000 % 0x40 * 0x1000 +
        n / 0x40 % 0x40 * 0x40 + n % 0x40 = n := by omega
    refine ⟨_, _, rfl, (head_four (by omega) (mayFollow_iff.2 (by omega)) (isTail_toUInt8 _)
      (isTail_toUInt8 _)).trans ?_⟩
    rw [hfirst, tailBits_toUInt8, tailBits_toUInt8, tailBits_toUInt8, hbits, hself]
    rfl

/-- An encoded text is decoded to itself, whatever is done about bytes that are not one. -/
theorem decodeWith_encode (mend : Option Char) {cs : List Char} {fuel : Nat}
    (h : (encode cs).length ≤ fuel) : decodeWith mend fuel (encode cs) = some cs := by
  induction cs generalizing fuel with
  | nil => cases fuel <;> rfl
  | cons c cs ih =>
    obtain ⟨b, bs, hbytes, hhead⟩ := head_encodeChar c (encode cs)
    have hencode : encode (c :: cs) = b :: (bs ++ encode cs) := by
      rw [encode, List.flatMap_cons, hbytes]
      rfl
    rw [hencode, List.length_cons, List.length_append] at h
    obtain ⟨fuel, rfl⟩ : ∃ k, fuel = k + 1 := ⟨fuel - 1, by omega⟩
    rw [hencode, decodeWith, hhead]
    dsimp only
    rw [Nat.add_sub_cancel, List.drop_left, ih (by omega)]
    rfl

/-- What is written is read. -/
theorem decode?_encode (cs : List Char) : decode? (encode cs) = some cs :=
  decodeWith_encode none (Nat.le_refl _)

/-- A byte of a character is the character itself, or no byte of ASCII. -/
theorem of_mem_encodeChar {c : Char} {b : UInt8} (h : b ∈ encodeChar c) :
    b.toNat = c.toNat ∨ 0x80 ≤ b.toNat := by
  have hvalid : c.toNat < 0xD800 ∨ (0xDFFF < c.toNat ∧ c.toNat < 0x110000) := c.valid
  rw [encodeChar] at h
  split_ifs at h with h1 h2 h3
  · obtain rfl := List.mem_singleton.1 h
    exact .inl (toNat_toUInt8 (by omega))
  all_goals
    right
    simp only [List.mem_cons, List.not_mem_nil, or_false] at h
    rcases h with rfl | rfl | rfl | rfl <;> rw [toNat_toUInt8 (by omega)] <;> omega

theorem encode_append (cs cs' : List Char) : encode (cs ++ cs') = encode cs ++ encode cs' :=
  List.flatMap_append

end Telemetry.Text.Utf8
