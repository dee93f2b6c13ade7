import Mathlib.Algebra.Order.Ring.Int

/-!
Doubles that rounding keeps away from zero, and whole numbers that it keeps as they are.

A number is rounded to a double by shifting its mantissa to 53 bits, which may drop bits and may
carry one bit over. As long as the mantissa has 53 bits to begin with, and the exponent is not below
that of the least normal double, what is left of it still has 53 bits (`atLeast_roundWithAccuracy`),
so the result is neither zero nor subnormal. Whole numbers are brought to 53 bits before they are
rounded, and a quotient is computed with 53 extra bits. So a positive whole number divided by a
normal double is positive, however it is rounded (`AtLeast.div`, `atLeast_ofInt`).

A mantissa of exactly 53 bits is not shifted at all (`roundWithAccuracy_exact`), so a natural number
of at most 53 bits is stored as it is and read back again (`toUInt64_ofInt`).

The statements are about the unpacked form of a double, and `AtLeast.unpack_pack` and
`unpack_pack_finite` carry them through the 64 bits that it is stored in.
-/

set_option autoImplicit false

open Float.Model (Format UnpackedFloat totalExponent)
open Float.Model.UnpackedFloat

namespace Telemetry.Double

/-- Whether an unpacked double is positive and normal with an exponent of at least `k`, or positive
infinity. -/
def AtLeast (k : Int) : UnpackedFloat → Prop
  | .finite .positive m e _ => 2 ^ 52 ≤ m ∧ m < 2 ^ 53 ∧ k ≤ e
  | .infinity .positive => True
  | _ => False

/-! ## Shifting a mantissa

Rounding shifts the mantissa to the exponent it is stored with. What is needed of it are bounds:
the value shifted back is above or below the original by less than one unit. -/

/-- Shifting drops the lowest bits of a mantissa. -/
theorem mantissa_shift (em : ExtendedMantissa) (k : Nat) :
    (em >>> k).mantissa = em.mantissa / 2 ^ k := by
  induction k with
  | zero => simp [HShiftRight.hShiftRight, Nat.repeat]
  | succ k ih =>
    have hstep : (em >>> (k + 1)).mantissa = (em >>> k).mantissa / 2 := rfl
    rw [hstep, ih, Nat.div_div_eq_div_mul, Nat.pow_succ]

/-- Rounding a mantissa adds one to it or nothing. -/
theorem roundedMantissa_bounds (em : ExtendedMantissa) :
    em.mantissa ≤ em.roundedMantissa ∧ em.roundedMantissa ≤ em.mantissa + 1 := by
  obtain ⟨m, round, sticky⟩ := em
  cases round <;> cases sticky <;>
    simp [ExtendedMantissa.roundedMantissa, ExtendedMantissa.accuracy, Accuracy.roundToNearestEven]
  omega

/-- The exponent aimed at keeps 53 bits, as far as exponents reach. -/
theorem targetExponent_eq (t : Int) : Format.binary64.targetExponent t = max (t - 53) (-1074) :=
  rfl

/-- A mantissa of 53 bits or more is shifted to exactly 53 bits. -/
theorem shiftToTargetExponent_eq {m : Nat} {e : Int} (a : Accuracy) (hm : 2 ^ 52 ≤ m)
    (he : -1074 ≤ e) :
    (shiftToTargetExponent Format.binary64 m e a).1.mantissa = m / 2 ^ (m.log2 - 52) ∧
      (shiftToTargetExponent Format.binary64 m e a).2 = e + (m.log2 - 52 : Nat) := by
  have hlog : 52 ≤ m.log2 := (Nat.le_log2 (by omega)).2 hm
  have hk : (Format.binary64.targetExponent (totalExponent m e) - e).toNat = m.log2 - 52 := by
    rw [targetExponent_eq, totalExponent]
    omega
  have hinitial : (ExtendedMantissa.ofMantissaAndAccuracy m a).mantissa = m := by
    cases a with
    | exact => rfl
    | inexact o => cases o <;> rfl
  simp only [shiftToTargetExponent, shiftToExponent, hk, mantissa_shift, hinitial, and_self]

/-- A mantissa shifted to 53 bits has its highest bit set. -/
theorem div_two_pow_bounds {m : Nat} (hm : 2 ^ 52 ≤ m) :
    2 ^ 52 ≤ m / 2 ^ (m.log2 - 52) ∧ m / 2 ^ (m.log2 - 52) < 2 ^ 53 := by
  have hne : m ≠ 0 := by omega
  have hlog : 52 ≤ m.log2 := (Nat.le_log2 hne).2 hm
  have hpos : 0 < 2 ^ (m.log2 - 52) := Nat.two_pow_pos _
  have hlow : 52 + (m.log2 - 52) = m.log2 := by omega
  have hhigh : 53 + (m.log2 - 52) = m.log2 + 1 := by omega
  rw [Nat.le_div_iff_mul_le hpos, Nat.div_lt_iff_lt_mul hpos, ← Nat.pow_add, ← Nat.pow_add, hlow,
    hhigh]
  exact ⟨Nat.log2_self_le hne, Nat.lt_log2_self⟩

/-! ## Rounding

A value that is at least a power of two stays so when it is rounded. This is what makes a quotient
of positive numbers positive. -/

/-- Rounding shifts a mantissa, rounds it, and shifts it once more, in case it has a bit too many.
-/
theorem roundWithAccuracy_eq {s : Sign} {m : Nat} {e e₁ e₂ : Int} {a : Accuracy}
    {em₁ em₂ : ExtendedMantissa}
    (hfirst : shiftToTargetExponent Format.binary64 m e a = (em₁, e₁))
    (hsecond : shiftToTargetExponent Format.binary64 em₁.roundedMantissa e₁ .exact = (em₂, e₂))
    (hpos : 0 < em₂.mantissa) :
    roundWithAccuracy Format.binary64 s m e a = .finite s em₂.mantissa e₂ hpos := by
  unfold roundWithAccuracy
  rw [hfirst]
  dsimp only
  rw [hsecond]
  exact dif_neg (Nat.ne_of_gt hpos)

/-- **Rounding keeps 53 bits**, and never makes the exponent smaller. -/
theorem atLeast_roundWithAccuracy {m : Nat} {e k : Int} (a : Accuracy) (hm : 2 ^ 52 ≤ m)
    (hk : -1074 ≤ k) (he : k ≤ e) :
    AtLeast k (roundWithAccuracy Format.binary64 .positive m e a) := by
  obtain ⟨hm₁, he₁⟩ := shiftToTargetExponent_eq a hm (Int.le_trans hk he)
  obtain ⟨hlow, -⟩ := div_two_pow_bounds hm
  cases hfirst : shiftToTargetExponent Format.binary64 m e a with
  | mk em₁ e₁ =>
    rw [hfirst] at hm₁ he₁
    simp only at hm₁ he₁
    -- the rounded mantissa may have a bit too many, and is shifted once more
    have hrounded : 2 ^ 52 ≤ em₁.roundedMantissa := by
      have hbounds := roundedMantissa_bounds em₁
      omega
    obtain ⟨hm₂, he₂⟩ := shiftToTargetExponent_eq .exact hrounded (e := e₁) (by omega)
    obtain ⟨hlow₂, hhigh₂⟩ := div_two_pow_bounds hrounded
    rw [← hm₂] at hlow₂ hhigh₂
    cases hsecond : shiftToTargetExponent Format.binary64 em₁.roundedMantissa e₁ .exact with
    | mk em₂ e₂ =>
      rw [hsecond] at he₂ hlow₂ hhigh₂
      simp only at he₂ hlow₂ hhigh₂
      have hpos : 0 < em₂.mantissa := by omega
      rw [roundWithAccuracy_eq hfirst hsecond hpos]
      refine ⟨hlow₂, hhigh₂, ?_⟩
      omega

/-- A quotient has 53 bits before it is rounded. -/
theorem AtLeast.div {k e : Int} {f : UnpackedFloat} {m : Nat} (h : AtLeast k f) (hpos : 0 < m)
    (hlow : 2 ^ 52 ≤ m) (hhigh : m < 2 ^ 53) (hk : -1074 ≤ k - e - 53) :
    AtLeast (k - e - 53) (UnpackedFloat.div Format.binary64 f (.finite .positive m e hpos)) := by
  match f, h with
  | .infinity .positive, _ => trivial
  | .finite .positive m₁ e₁ _, ⟨hlow₁, hhigh₁, he₁⟩ =>
    have hlog : m.log2 = 52 := (Nat.log2_eq_iff (by omega)).2 ⟨hlow, hhigh⟩
    have hlog₁ : m₁.log2 = 52 := (Nat.log2_eq_iff (by omega)).2 ⟨hlow₁, hhigh₁⟩
    -- both mantissas have 53 bits, so the dividend is shifted by another 53
    have htarget : min (e₁ - e) (Format.binary64.targetExponent
        (totalExponent m₁ e₁ - totalExponent m e)) = e₁ - e - 53 := by
      rw [targetExponent_eq, totalExponent, totalExponent, hlog, hlog₁]
      omega
    have hshift : (e₁ - e - (e₁ - e - 53)).toNat = 53 := by omega
    unfold UnpackedFloat.div divCore
    dsimp only
    rw [htarget, hshift]
    apply atLeast_roundWithAccuracy _ _ hk (by omega)
    rw [Nat.shiftLeft_eq, Nat.le_div_iff_mul_le hpos]
    calc 2 ^ 52 * m ≤ 2 ^ 52 * 2 ^ 53 := Nat.mul_le_mul_left _ (Nat.le_of_lt hhigh)
      _ ≤ m₁ * 2 ^ 53 := Nat.mul_le_mul_right _ hlow₁

/-- A mantissa of exactly 53 bits is not shifted. -/
theorem shiftToTargetExponent_self {m : Nat} {e : Int} (hlog : m.log2 = 52) (he : -1074 ≤ e) :
    shiftToTargetExponent Format.binary64 m e .exact = (⟨m, false, false⟩, e) := by
  have hk : (Format.binary64.targetExponent (totalExponent m e) - e).toNat = 0 := by
    rw [targetExponent_eq, totalExponent, hlog]
    omega
  unfold shiftToTargetExponent shiftToExponent
  simp only [hk]
  exact Prod.ext rfl (Int.add_zero e)

/-- A mantissa of exactly 53 bits is rounded to itself. -/
theorem roundWithAccuracy_exact {m : Nat} {e : Int} (hm : 0 < m) (hlog : m.log2 = 52)
    (he : -1074 ≤ e) :
    roundWithAccuracy Format.binary64 .positive m e .exact = .finite .positive m e hm := by
  have hself := shiftToTargetExponent_self hlog he
  exact roundWithAccuracy_eq hself hself hm

/-! ## The stored form

Doubles are stored in bits, and read back from them. Finite values come back as they are, and
those that are too great come back as infinity. -/

/-- The sign comes back from the highest bit. -/
theorem ofBitVec_unpackSign {spec : Format} (s : Sign) (e : BitVec spec.exponentBits)
    (m : BitVec spec.mantissaBitsWithoutImplicit) :
    Sign.ofBitVec (unpackSign (packComponents spec s e m)) = s := by
  have hsign : unpackSign (packComponents spec s e m) = s.toBitVec := by
    apply BitVec.eq_of_getLsbD_eq
    intro i hi
    obtain rfl : i = 0 := by omega
    unfold unpackSign
    simp [packComponents, BitVec.getLsbD_append, BitVec.getElem_append]
  rw [hsign]
  cases s <;> rfl

/-- That the mantissa is positive plays no part in what a double is. -/
theorem finite_congr {s : Sign} {m m' : Nat} {e e' : Int} {hm : 0 < m} {hm' : 0 < m'}
    (hmantissa : m = m') (hexponent : e = e') :
    UnpackedFloat.finite s m e hm = .finite s m' e' hm' := by
  subst hmantissa hexponent
  rfl

/-- Bits whose exponent is neither all zeros nor all ones are those of a normal double. -/
theorem unpack_packComponents (s : Sign) {e : BitVec 11} (m : BitVec 52) (hzero : e ≠ 0#11)
    (hones : e ≠ -1#11) :
    ∃ h, unpack Format.binary64 (packComponents Format.binary64 s e m) =
      .finite s (2 ^ 52 + m.toNat) (e.toNat - 1075) h := by
  have hbits : (1#1 ++ m).toNat = 2 ^ 52 + m.toNat := by
    rw [BitVec.toNat_append, ← Nat.shiftLeft_add_eq_or_of_lt m.isLt]
    rfl
  refine ⟨by omega, ?_⟩
  unfold unpack
  dsimp only
  rw [unpackExponent_packComponents, ofBitVec_unpackSign, if_neg hones, if_neg hzero]
  refine finite_congr ?_ rfl
  rw [unpackMantissa_packComponents]
  exact hbits

/-- Infinity is packed as such. -/
theorem pack_infinity (s : Sign) :
    pack Format.binary64 (.infinity s) = packedInfinity Format.binary64 s := rfl

/-- And comes back. -/
theorem unpack_packedInfinity (s : Sign) :
    unpack Format.binary64 (packedInfinity Format.binary64 s) = .infinity s := by
  have hpacked : packedInfinity Format.binary64 s = packComponents Format.binary64 s (-1#11) 0#52 :=
    rfl
  unfold unpack
  dsimp only
  rw [hpacked, unpackExponent_packComponents, ofBitVec_unpackSign, if_pos rfl,
    if_pos (unpackMantissa_packComponents ..)]

/-- How a number is packed: as infinite, with its highest bit left out, or as a subnormal one. -/
theorem pack_finite (s : Sign) {m : Nat} (e : Int) (hm : 0 < m) :
    pack Format.binary64 (.finite s m e hm) =
      if 2 ^ 11 ≤ (e + (1023 : Nat) + (52 : Nat)).toNat + 1 then packedInfinity Format.binary64 s
      else if m.log2 + 1 = 53 then
        packComponents Format.binary64 s (BitVec.ofNat 11 (e + (1023 : Nat) + (52 : Nat)).toNat)
          (BitVec.ofNat 52 m)
      else packComponents Format.binary64 s 0#11 (BitVec.ofNat 52 m) := rfl

/-- Storing a normal double whose exponent is not too great keeps it. -/
theorem unpack_pack_finite {m : Nat} {e : Int} (hm : 0 < m) (hlog : m.log2 = 52) (he : -1074 ≤ e)
    (he' : e ≤ 971) :
    (Float.Model.pack (.finite .positive m e hm)).unpack = .finite .positive m e hm := by
  show unpack Format.binary64 (pack Format.binary64 _) = _
  obtain ⟨hlow, hhigh⟩ := (Nat.log2_eq_iff (by omega)).1 hlog
  have hbias : e + (1023 : Nat) + (52 : Nat) = e + 1075 := by omega
  have hexponent : (BitVec.ofNat 11 (e + 1075).toNat).toNat = (e + 1075).toNat := by
    rw [BitVec.toNat_ofNat]
    omega
  have hmantissa : (BitVec.ofNat 52 m).toNat = m - 2 ^ 52 := by
    rw [BitVec.toNat_ofNat]
    omega
  have hpack : pack Format.binary64 (.finite .positive m e hm) =
      packComponents Format.binary64 .positive (BitVec.ofNat 11 (e + 1075).toNat)
        (BitVec.ofNat 52 m) := by
    have hover : ¬ 2 ^ 11 ≤ (e + 1075).toNat + 1 := by omega
    rw [pack_finite, hbias, if_neg hover, if_pos (by omega)]
  -- the exponent is neither that of the small numbers nor that of the infinities
  have hzero : BitVec.ofNat 11 (e + 1075).toNat ≠ 0#11 := by
    intro h
    rw [h, BitVec.toNat_zero] at hexponent
    omega
  have hones : BitVec.ofNat 11 (e + 1075).toNat ≠ -1#11 := by
    intro h
    have hmax : (-1#11 : BitVec 11).toNat = 2047 := rfl
    rw [h, hmax] at hexponent
    omega
  obtain ⟨_, hunpack⟩ := unpack_packComponents .positive (BitVec.ofNat 52 m) hzero hones
  rw [hpack, hunpack]
  exact finite_congr (by omega) (by omega)

/-- Storing a normal double keeps it, or makes it infinite when its exponent is too great. -/
theorem AtLeast.unpack_pack {k : Int} {f : UnpackedFloat} (h : AtLeast k f) (hk : -1074 ≤ k) :
    AtLeast k (Float.Model.pack f).unpack := by
  match f, h with
  | .infinity .positive, _ =>
    show AtLeast k (unpack Format.binary64 (pack Format.binary64 _))
    rw [pack_infinity, unpack_packedInfinity]
    trivial
  | .finite .positive m e hm, ⟨hlow, hhigh, he⟩ =>
    have hlog : m.log2 = 52 := (Nat.log2_eq_iff (by omega)).2 ⟨hlow, hhigh⟩
    by_cases hover : e ≤ 971
    · rw [unpack_pack_finite hm hlog (by omega) hover]
      exact ⟨hlow, hhigh, he⟩
    · have hpack : pack Format.binary64 (.finite .positive m e hm) =
          packedInfinity Format.binary64 .positive := by
        have hbias : 2 ^ 11 ≤ (e + (1023 : Nat) + (52 : Nat)).toNat + 1 := by omega
        rw [pack_finite, if_pos hbias]
      show AtLeast k (unpack Format.binary64 (pack Format.binary64 _))
      rw [hpack, unpack_packedInfinity]
      trivial

/-! ## Whole numbers

A whole number below 2⁵³ is a double, exactly; it can be read back from it. -/

/-- A positive whole number becomes a normal double, or infinite. -/
theorem atLeast_ofInt {n : Int} (hn : 0 < n) : AtLeast (-52) (Float.Model.ofInt n).unpack := by
  have hne : n.toNat ≠ 0 := by omega
  have hlow : 2 ^ n.toNat.log2 ≤ n.toNat := Nat.log2_self_le hne
  rw [Float.Model.ofInt]
  apply AtLeast.unpack_pack _ (by omega)
  rw [UnpackedFloat.ofInt, UnpackedFloat.normalize, Int.compare_eq_gt.2 hn]
  simp only [UnpackedFloat.round, decreaseExponent, targetExponent_eq, totalExponent]
  apply atLeast_roundWithAccuracy _ _ (by omega) (by omega)
  rw [Nat.shiftLeft_eq]
  -- a number of fewer than 53 bits is shifted up to so many, and any other has them
  by_cases hlog : n.toNat.log2 ≤ 52
  · have hsplit : n.toNat.log2 +
        (0 - max ((n.toNat.log2 : Int) + 1 + 0 - 53) (-1074)).toNat = 52 := by
      omega
    calc 2 ^ 52 = 2 ^ n.toNat.log2 * 2 ^ _ := by rw [← Nat.pow_add, hsplit]
      _ ≤ n.toNat * 2 ^ _ := Nat.mul_le_mul_right _ hlow
  · calc 2 ^ 52 ≤ 2 ^ n.toNat.log2 := Nat.pow_le_pow_right (by omega) (by omega)
      _ ≤ n.toNat := hlow
      _ ≤ n.toNat * 2 ^ _ := Nat.le_mul_of_pos_right _ (Nat.two_pow_pos _)

/-- **A natural number below 2^53 is a double**, and is read back from it. -/
theorem toUInt64_ofInt {n : Nat} (h : n < 2 ^ 53) :
    (Float.ofModel (.ofInt n)).toUInt64.toNat = n := by
  by_cases hn : n = 0
  · subst hn
    decide
  · have hlog : n.log2 ≤ 52 := Nat.le_of_lt_succ ((Nat.log2_lt hn).2 h)
    -- the mantissa of the double is the number, shifted up to 53 bits
    obtain ⟨k, hk⟩ := Nat.exists_eq_add_of_le hlog
    have hm : 0 < n * 2 ^ k := Nat.mul_pos (Nat.pos_of_ne_zero hn) (Nat.two_pow_pos k)
    have hmlog : (n * 2 ^ k).log2 = 52 := by
      rw [Nat.log2_eq_iff (by omega), hk]
      have hlow := Nat.log2_self_le hn
      have hhigh := Nat.lt_log2_self (n := n)
      have hsucc : n.log2 + k + 1 = n.log2 + 1 + k := by omega
      rw [hsucc, Nat.pow_add, Nat.pow_add 2 (n.log2 + 1)]
      exact ⟨Nat.mul_le_mul_right _ hlow, Nat.mul_lt_mul_of_pos_right hhigh (Nat.two_pow_pos k)⟩
    have hunpack : (Float.Model.ofInt n).unpack = .finite .positive (n * 2 ^ k) (0 - k) hm := by
      have hpos : (0 : Int) < n := by omega
      have htarget : (0 - max ((n.log2 : Int) + 1 + 0 - 53) (-1074)).toNat = k := by omega
      have hround : UnpackedFloat.ofInt Format.binary64 n =
          roundWithAccuracy Format.binary64 .positive (n * 2 ^ k) (0 - k) .exact := by
        rw [UnpackedFloat.ofInt, UnpackedFloat.normalize, Int.compare_eq_gt.2 hpos]
        simp only [UnpackedFloat.round, decreaseExponent, targetExponent_eq, totalExponent,
          Int.toNat_natCast, htarget, Nat.shiftLeft_eq]
      rw [Float.Model.ofInt, hround, roundWithAccuracy_exact hm hmlog (by omega)]
      exact unpack_pack_finite hm hmlog (by omega) (by omega)
    have hint : UnpackedFloat.toInt 0 ((UInt64.size : Int) - 1) (Float.Model.ofInt n).unpack =
        n := by
      rw [hunpack]
      have hdown : (0 - (k : Int) - 0).toNat = 0 := by omega
      have hup : (0 - (0 - (k : Int) - ((0 : Nat) : Int))).toNat = k := by omega
      unfold UnpackedFloat.toInt
      dsimp only
      simp only [roundToInt, decreaseExponent, shiftToExponent, hdown, hup, mantissa_shift,
        Nat.shiftLeft_zero, Sign.apply]
      show ((n * 2 ^ k / 2 ^ k : Nat) : Int) = n
      rw [Nat.mul_div_cancel _ (Nat.two_pow_pos k)]
    show (UInt64.ofNatClamp (UnpackedFloat.toInt 0 ((UInt64.size : Int) - 1)
      (Float.Model.ofInt n).unpack).toNat).toNat = n
    rw [hint, Int.toNat_natCast, UInt64.ofNatClamp, dif_pos (by show n < 2 ^ 64; omega)]
    rfl

/-! ## Comparison with zero -/

theorem unpack_zero : (0.0 : Float).toModel.unpack = .zero .positive := rfl

section Zero

variable {k : Int} {x : Float} (h : AtLeast k x.toModel.unpack)

include h

/-- A number that is at least a power of two is positive. -/
theorem AtLeast.pos : 0.0 < x := by
  have hlt : (0.0 : Float).toModel.unpack.lt x.toModel.unpack = true := by
    rw [unpack_zero]
    generalize x.toModel.unpack = f at h
    match f, h with
    | .infinity .positive, _ => rfl
    | .finite .positive _ _ _, _ => rfl
  exact decide_eq_true hlt

theorem AtLeast.not_le_zero : ¬ x ≤ 0.0 := by
  have hle : ¬ x.toModel.unpack.le (0.0 : Float).toModel.unpack = true := by
    rw [unpack_zero]
    generalize x.toModel.unpack = f at h
    match f, h with
    | .infinity .positive, _ => exact Bool.false_ne_true
    | .finite .positive _ _ _, _ => exact Bool.false_ne_true
  exact fun hx => hle (of_decide_eq_true hx)

end Zero

end Telemetry.Double
