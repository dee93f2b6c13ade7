import Telemetry.Text.Integer

/-!
Decimal texts and the numbers that are read from them.

A text of decimal digits is read as the number that the digits denote, as long as that lies in the
range. Reading checks the range at every digit; this does no harm, because the number denoted by the
first digits is never greater than the one denoted by all of them.
-/

set_option autoImplicit false

namespace Telemetry.Text.Integer

/-- Whether a text is a natural number in decimal digits. -/
def IsDecimal (cs : List Char) (n : Nat) : Prop :=
  cs ≠ [] ∧ (∀ c ∈ cs, c.isDigit = true) ∧ Nat.ofDigitChars 10 cs 0 = n

/-- Whether a text is a whole number in decimal digits, with a minus sign before a negative one. -/
def IsSignedDecimal (cs : List Char) (n : Int) : Prop :=
  (∃ k : Nat, IsDecimal cs k ∧ n = k) ∨ ∃ (ds : List Char) (k : Nat),
    cs = '-' :: ds ∧ IsDecimal ds k ∧ n = -(k : Int)

/-! ## Texts that are written -/

/-- A number written down is a decimal of itself. -/
theorem isDecimal_toString (n : Nat) : IsDecimal (toString n).toList n := by
  rw [Nat.toString_eq_ofList_toDigits, String.toList_ofList]
  exact ⟨Nat.toDigits_ne_nil, fun c hc => Nat.isDigit_of_mem_toDigits (by omega) (by omega) hc,
    Nat.ofDigitChars_ten_toDigits⟩

/-! ## Texts that are read -/

/-- A digit has its distance from zero as its value. -/
theorem digit?_eq_some {c : Char} (h : c.isDigit = true) :
    digit? c = some (c.toNat - '0'.toNat) := by
  have hrange : ('0' ≤ c && c ≤ '9') = true := by
    simpa [Char.isDigit, Char.le_def] using h
  rw [digit?, if_pos hrange]
  rfl

/-- No digit is above nine. -/
theorem digit_le {c : Char} (h : c.isDigit = true) : c.toNat - '0'.toNat ≤ 9 := by
  have hrange : '0' ≤ c ∧ c ≤ '9' := by
    simpa [Char.isDigit, Char.le_def] using h
  have hgreatest : c.toNat ≤ '9'.toNat := hrange.2
  have hnine : '9'.toNat = 57 := rfl
  have hzero : '0'.toNat = 48 := rfl
  omega

/-- Further digits make a number no smaller. -/
theorem le_ofDigitChars (cs : List Char) (n : Nat) : n ≤ Nat.ofDigitChars 10 cs n := by
  rw [Nat.ofDigitChars_eq_ofDigitChars_zero]
  have hpos : 1 ≤ 10 ^ cs.length := Nat.one_le_pow _ _ (by omega)
  have hle : 1 * n ≤ 10 ^ cs.length * n := Nat.mul_le_mul_right n hpos
  omega

/-- Digits are read to their value, if this is within the limit. -/
theorem digits_eq_ok {limit : Nat} {excess : Fault} {value : Nat} {cs : List Char}
    (hdigits : ∀ c ∈ cs, c.isDigit = true) (hle : Nat.ofDigitChars 10 cs value ≤ limit) :
    digits limit excess value cs = .ok (Nat.ofDigitChars 10 cs value) := by
  -- on the digits, with any value before them: the value only grows, so it is within the limit at
  -- each step
  induction cs generalizing value with
  | nil => rfl
  | cons c cs ih =>
    obtain ⟨hc, hcs⟩ := List.forall_mem_cons.1 hdigits
    rw [Nat.ofDigitChars_cons] at hle ⊢
    -- what has been read so far is no greater than the whole number
    have hfits : ¬ limit < 10 * value + (c.toNat - '0'.toNat) :=
      Nat.not_lt.2 (Nat.le_trans (le_ofDigitChars cs _) hle)
    rw [digits, digit?_eq_some hc]
    simp only [if_neg hfits]
    exact ih hcs hle

theorem digits1_eq_ok {limit : Nat} {excess : Fault} {cs : List Char} {n : Nat}
    (h : IsDecimal cs n) (hle : n ≤ limit) : digits1 limit excess cs = .ok n := by
  obtain ⟨hne, hdigits, rfl⟩ := h
  rw [digits1, List.isEmpty_eq_false_iff.2 hne]
  exact digits_eq_ok hdigits hle

/-- A decimal text has no sign. -/
theorem IsDecimal.head_ne {c sign : Char} {cs : List Char} {n : Nat} (h : IsDecimal (c :: cs) n)
    (hsign : sign.isDigit = false) : c ≠ sign := by
  rintro rfl
  have hdigit := h.2.1 c List.mem_cons_self
  rw [hsign] at hdigit
  cases hdigit

/-- A decimal within the limit is read as a number without a sign. -/
theorem unsigned_eq_ok {limit : Nat} {cs : List Char} {n : Nat} (h : IsDecimal cs n)
    (hle : n ≤ limit) : unsigned limit cs = .ok n := by
  cases cs with
  | nil => exact absurd rfl h.1
  | cons c cs =>
    have hplus : c ≠ '+' := h.head_ne (by decide)
    rw [unsigned]
    · exact digits1_eq_ok h hle
    · simp
    · intro ds hds
      exact hplus (List.cons.inj hds).1

/-- Digits that are read denote a number within the limit. -/
theorem of_digits_eq_ok {limit value n : Nat} {excess : Fault} {cs : List Char}
    (hdigits : ∀ c ∈ cs, c.isDigit = true) (hvalue : value ≤ limit)
    (h : digits limit excess value cs = .ok n) : n = Nat.ofDigitChars 10 cs value ∧ n ≤ limit := by
  induction cs generalizing value with
  | nil =>
    cases h
    exact ⟨rfl, hvalue⟩
  | cons c cs ih =>
    obtain ⟨hc, hcs⟩ := List.forall_mem_cons.1 hdigits
    rw [digits, digit?_eq_some hc] at h
    dsimp only at h
    split at h
    next => cases h
    next hfits =>
      rw [Nat.ofDigitChars_cons]
      exact ih hcs (Nat.not_lt.1 hfits) h

/-- What is read from digits is their number, and within the limit. -/
theorem of_unsigned_eq_ok {limit n : Nat} {cs : List Char} (hne : cs ≠ [])
    (hdigits : ∀ c ∈ cs, c.isDigit = true) (h : unsigned limit cs = .ok n) :
    IsDecimal cs n ∧ n ≤ limit := by
  cases cs with
  | nil => contradiction
  | cons c cs =>
    have hplus : c ≠ '+' := by
      rintro rfl
      cases hdigits '+' List.mem_cons_self
    rw [unsigned] at h
    · rw [digits1, List.isEmpty_cons] at h
      obtain ⟨rfl, hle⟩ := of_digits_eq_ok hdigits (Nat.zero_le _) h
      exact ⟨⟨hne, hdigits, rfl⟩, hle⟩
    · simp
    · intro ds hds
      exact hplus (List.cons.inj hds).1

/-- A decimal with or without a sign is read to its number, if this fits the word. -/
theorem signed_eq_ok {limit : Nat} {cs : List Char} {n : Int} (h : IsSignedDecimal cs n)
    (hleast : -(limit + 1 : Int) ≤ n) (hgreatest : n ≤ limit) : signed limit cs = .ok n := by
  obtain ⟨k, hk, rfl⟩ | ⟨ds, k, rfl, hk, rfl⟩ := h
  -- without a sign the first character is a digit, so neither sign is taken off
  · cases cs with
    | nil => exact absurd rfl hk.1
    | cons c cs =>
      have hplus : c ≠ '+' := hk.head_ne (by decide)
      have hminus : c ≠ '-' := hk.head_ne (by decide)
      rw [signed]
      · rw [digits1_eq_ok hk (by omega)]
        rfl
      · simp
      · intro ds hds
        exact hplus (List.cons.inj hds).1
      · intro ds hds
        exact hminus (List.cons.inj hds).1
  · rw [signed, digits1_eq_ok hk (by omega)]
    rfl

end Telemetry.Text.Integer
