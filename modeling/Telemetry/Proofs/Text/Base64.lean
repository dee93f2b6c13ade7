import Telemetry.Text.Base64

/-!
The symbols that are written for bytes are read as these bytes.

Writing goes by three bytes at a time and reading by four symbols; the last group, which may be
shorter, is read in its own way. So the induction is on the bytes by threes, and the last group is
settled for one, two and three bytes apart.
-/

set_option autoImplicit false

namespace Telemetry.Text.Base64

/-! ## Symbols -/

theorem value?_symbol {n : Nat} (hn : n < 64) : value? (symbol n) = some n := by
  have hall : ∀ m < 64, value? (symbol m) = some m := by decide
  exact hall n hn

theorem symbol_ne_pad {n : Nat} (hn : n < 64) : symbol n ≠ pad := by
  have hall : ∀ m < 64, symbol m ≠ pad := by decide
  exact hall n hn

/-! ## Groups -/

theorem toUInt8_toNat (b : UInt8) : b.toNat.toUInt8 = b := UInt8.ofNat_toNat

/-- The values of four symbols make the three bytes of which they are the bits. -/
theorem bytesOfGroup_of_bytes (a b c : UInt8) :
    bytesOfGroup (((a.toNat * 256 + b.toNat) * 256 + c.toNat) / 262144)
        (((a.toNat * 256 + b.toNat) * 256 + c.toNat) / 4096 % 64)
        (((a.toNat * 256 + b.toNat) * 256 + c.toNat) / 64 % 64)
        (((a.toNat * 256 + b.toNat) * 256 + c.toNat) % 64) = [a, b, c] := by
  have ha := a.toNat_lt
  have hb := b.toNat_lt
  have hc := c.toNat_lt
  generalize hn : (a.toNat * 256 + b.toNat) * 256 + c.toNat = n
  have hjoin : ((n / 262144 * 64 + n / 4096 % 64) * 64 + n / 64 % 64) * 64 + n % 64 = n := by
    omega
  rw [bytesOfGroup]
  simp only [hjoin]
  have h1 : n / 65536 = a.toNat := by omega
  have h2 : n / 256 % 256 = b.toNat := by omega
  have h3 : n % 256 = c.toNat := by omega
  rw [h1, h2, h3, toUInt8_toNat, toUInt8_toNat, toUInt8_toNat]

/-- A symbol in the last group is read as its value. -/
theorem lastValues_symbol (offset index : Nat) {n : Nat} (hn : n < 64) {rest : List UInt8}
    {values : List Nat} {padding : Nat}
    (hrest : lastValues offset (index + 1) 0 rest = .ok (values, padding)) :
    lastValues offset index 0 (symbol n :: rest) = .ok (n :: values, padding) := by
  rw [lastValues, if_neg (symbol_ne_pad hn), if_neg (Nat.lt_irrefl 0), value?_symbol hn]
  simp only [hrest]
  rfl

section LastGroup

variable {offset : Nat} {group : List UInt8} {a b c d : Nat}

theorem lastGroup_of_two (h : lastValues offset 0 0 group = .ok ([a, b], 2)) (hb : b % 16 = 0) :
    lastGroup offset group = .ok [(a * 4 + b / 16).toUInt8] := by
  simp [lastGroup, h, hb, bind, Except.bind, pure, Except.pure]

theorem lastGroup_of_three (h : lastValues offset 0 0 group = .ok ([a, b, c], 1))
    (hc : c % 4 = 0) : lastGroup offset group = .ok ((bytesOfGroup a b c 0).take 2) := by
  simp [lastGroup, h, hc, bind, Except.bind, pure, Except.pure]

theorem lastGroup_of_four (h : lastValues offset 0 0 group = .ok ([a, b, c, d], 0)) :
    lastGroup offset group = .ok (bytesOfGroup a b c d) := by
  simp [lastGroup, h, bind, Except.bind, pure, Except.pure]

end LastGroup

/-- One byte is encoded as a last group that decodes to it. -/
theorem lastGroup_one (offset : Nat) (a : UInt8) : lastGroup offset (encode [a]) = .ok [a] := by
  have ha := a.toNat_lt
  have hvalues : lastValues offset 0 0 (encode [a]) =
      .ok ([a.toNat * 16 / 64, a.toNat * 16 % 64], 2) :=
    lastValues_symbol offset 0 (by omega) (lastValues_symbol offset 1 (by omega) rfl)
  have hbyte : a.toNat * 16 / 64 * 4 + a.toNat * 16 % 64 / 16 = a.toNat := by omega
  rw [lastGroup_of_two hvalues (by omega), hbyte, toUInt8_toNat]

/-- Two bytes are encoded as one that decodes to them. -/
theorem lastGroup_two (offset : Nat) (a b : UInt8) :
    lastGroup offset (encode [a, b]) = .ok [a, b] := by
  have ha := a.toNat_lt
  have hb := b.toNat_lt
  have hvalues : lastValues offset 0 0 (encode [a, b]) =
      .ok ([(a.toNat * 256 + b.toNat) * 4 / 4096, (a.toNat * 256 + b.toNat) * 4 / 64 % 64,
        (a.toNat * 256 + b.toNat) * 4 % 64], 1) :=
    lastValues_symbol offset 0 (by omega) (lastValues_symbol offset 1 (by omega)
      (lastValues_symbol offset 2 (by omega) rfl))
  -- these are the values of a full group whose third byte is zero
  have hgroup := bytesOfGroup_of_bytes a b 0
  simp only [UInt8.toNat_zero, Nat.add_zero] at hgroup
  generalize a.toNat * 256 + b.toNat = n at hvalues hgroup
  have h1 : n * 256 / 262144 = n * 4 / 4096 := by omega
  have h2 : n * 256 / 4096 % 64 = n * 4 / 64 % 64 := by omega
  have h3 : n * 256 / 64 % 64 = n * 4 % 64 := by omega
  have h4 : n * 256 % 64 = 0 := by omega
  rw [h1, h2, h3, h4] at hgroup
  rw [lastGroup_of_three hvalues (by omega), hgroup]
  rfl

theorem lastGroup_three (offset : Nat) (a b c : UInt8) :
    lastGroup offset (encode [a, b, c]) = .ok [a, b, c] := by
  have ha := a.toNat_lt
  have hb := b.toNat_lt
  have hc := c.toNat_lt
  have hvalues : lastValues offset 0 0 (encode [a, b, c]) =
      .ok ([((a.toNat * 256 + b.toNat) * 256 + c.toNat) / 262144,
        ((a.toNat * 256 + b.toNat) * 256 + c.toNat) / 4096 % 64,
        ((a.toNat * 256 + b.toNat) * 256 + c.toNat) / 64 % 64,
        ((a.toNat * 256 + b.toNat) * 256 + c.toNat) % 64], 0) :=
    lastValues_symbol offset 0 (by omega) (lastValues_symbol offset 1 (by omega)
      (lastValues_symbol offset 2 (by omega) (lastValues_symbol offset 3 (by omega) rfl)))
  rw [lastGroup_of_four hvalues, bytesOfGroup_of_bytes]

/-- A full group with others behind it is read on its own. -/
theorem groups_encode_cons (offset : Nat) (a b c d : UInt8) (rest : List UInt8)
    (h : groups (offset + 4) (encode (d :: rest)) = .ok (d :: rest)) :
    groups offset (encode (a :: b :: c :: d :: rest)) = .ok (a :: b :: c :: d :: rest) := by
  have ha := a.toNat_lt
  have hb := b.toNat_lt
  have hc := c.toNat_lt
  -- something stands behind the group, so it is not read as the last one
  obtain ⟨s, tail, htail⟩ : ∃ s tail, encode (d :: rest) = s :: tail := by
    match rest with
    | [] => exact ⟨_, _, rfl⟩
    | [_] => exact ⟨_, _, rfl⟩
    | _ :: _ :: _ => exact ⟨_, _, rfl⟩
  have hall := bytesOfGroup_of_bytes a b c
  have hn : (a.toNat * 256 + b.toNat) * 256 + c.toNat < 262144 * 64 := by omega
  rw [encode, htail]
  generalize (a.toNat * 256 + b.toNat) * 256 + c.toNat = n at hall hn
  have h1 := value?_symbol (show n / 262144 < 64 by omega)
  have h2 := value?_symbol (show n / 4096 % 64 < 64 by omega)
  have h3 := value?_symbol (show n / 64 % 64 < 64 by omega)
  have h4 := value?_symbol (show n % 64 < 64 by omega)
  rw [htail] at h
  simp only [groups, h1, h2, h3, h4, h, hall, bind, Except.bind, pure, Except.pure]
  rfl

/-- Any bytes are decoded from their encoding, three at a time. -/
theorem groups_encode (offset : Nat) :
    ∀ bs : List UInt8, bs ≠ [] → groups offset (encode bs) = .ok bs
  | [], hne => absurd rfl hne
  | [a], _ => lastGroup_one offset a
  | [a, b], _ => lastGroup_two offset a b
  | [a, b, c], _ => lastGroup_three offset a b c
  | a :: b :: c :: d :: rest, _ =>
    groups_encode_cons offset a b c d rest (groups_encode (offset + 4) (d :: rest) (by simp))

/-! ## The whole text -/

/-- An encoding is made of groups of four symbols. -/
theorem length_encode (bs : List UInt8) : (encode bs).length % 4 = 0 := by
  match bs with
  | [] => rfl
  | [_] => simp [encode]
  | [_, _] => simp [encode]
  | _ :: _ :: _ :: rest =>
    have ih := length_encode rest
    simp only [encode, List.length_cons]
    omega

/-- What is written for bytes is read as these bytes. -/
theorem decode_encode (bs : List UInt8) : decode (encode bs) = .ok bs := by
  by_cases hbs : bs = []
  · rw [hbs]
    rfl
  · have hlength := length_encode bs
    rw [decode]
    split
    next h =>
      -- an empty text would have no groups, but it stands for bytes
      rw [List.getLast?_eq_none_iff] at h
      have hgroups := groups_encode 0 bs hbs
      rw [h] at hgroups
      cases hgroups
    next final h =>
      rw [if_neg (by omega)]
      exact groups_encode 0 bs hbs

end Telemetry.Text.Base64
