import Telemetry.Proofs.Time.Duration
import Telemetry.Query.Parser

/-!
Durations in queries.

A number of a plain unit is read on its own, with its own check of the digits and of the range; all
other texts are left to a general reader. Nothing can be told from the result: whatever the general
reader is, if it adds up plain terms, a duration is what it makes of the trimmed text
(`ReadsSums.agrees`). The reader for lengths of time is such a one (`readsSums_read`).
-/

set_option autoImplicit false

namespace Telemetry.Query

open Text (trim)
open Text.Integer (IsDecimal maxUnsigned64)
open Time (Duration)

/-! ## Plain durations -/

theorem isDigit_of_isDecimal {ds : List Char} {n : Nat} (h : IsDecimal ds n) :
    ∀ c ∈ ds, isDigit c = true := by
  intro c hc
  simpa [isDigit, Char.isDigit, Char.le_def] using h.2.1 c hc

theorem isDecimal_of_isDigit {ds : List Char} (hne : ds ≠ []) (h : ∀ c ∈ ds, isDigit c = true) :
    IsDecimal ds (Nat.ofDigitChars 10 ds 0) :=
  ⟨hne, fun c hc => by simpa [isDigit, Char.isDigit, Char.le_def] using h c hc, rfl⟩

/-- The units of the short form are units of the long one. -/
theorem plainUnit?_plain : ∀ p ∈ Duration.plainUnits, plainUnit? p.1 = some p.2.seconds := by
  decide

/-- And every such unit has a name in the long form. -/
theorem exists_of_plainUnit? {u : Char} {seconds : Nat} (h : plainUnit? u = some seconds) :
    ∃ unit, (u, unit) ∈ Duration.plainUnits ∧ unit.seconds = seconds := by
  unfold plainUnit? at h
  split at h <;> cases h
  · exact ⟨.second, by decide, rfl⟩
  · exact ⟨.minute, by decide, rfl⟩
  · exact ⟨.hour, by decide, rfl⟩
  · exact ⟨.day, by decide, rfl⟩

/-- Digits with a plain unit right behind them. -/
theorem plainDuration?_plain {ds : List Char} {n : Nat} {u : Char} {unit : Duration.TimeUnit}
    (h : IsDecimal ds n) (hu : (u, unit) ∈ Duration.plainUnits) :
    plainDuration? (ds ++ [u]) =
      some (if maxUnsigned64 < n * unit.seconds then none else some (n * unit.seconds)) := by
  have hcond : ¬ (ds.isEmpty || !ds.all isDigit) = true := by
    rw [List.all_eq_true.2 (isDigit_of_isDecimal h), List.isEmpty_eq_false_iff.2 h.1]
    decide
  rw [plainDuration?, List.getLast?_concat]
  simp only [plainUnit?_plain _ hu, List.dropLast_concat, if_neg hcond]
  rcases Nat.lt_or_ge maxUnsigned64 n with hlt | hle
  · -- digits that leave the range are refused before the unit is looked at
    have hlong : maxUnsigned64 < n * unit.seconds :=
      Nat.lt_of_lt_of_le hlt (Nat.le_mul_of_pos_right n (Duration.nanoseconds_plain _ hu).2)
    rw [if_pos hlong]
    cases hread : Text.Integer.unsigned maxUnsigned64 ds with
    | error f => rfl
    | ok m =>
      obtain ⟨hm, hfits⟩ := Text.Integer.of_unsigned_eq_ok h.1 h.2.1 hread
      rw [← hm.2.2, h.2.2] at hfits
      exact absurd hfits (Nat.not_le.2 hlt)
  · simp only [Text.Integer.unsigned_eq_ok h hle]
    split <;> rfl

/-- Nothing else is a plain duration. -/
theorem exists_of_plainDuration? {text : List Char} {result : Option Nat}
    (h : plainDuration? text = some result) :
    ∃ ds n u unit, text = ds ++ [u] ∧ IsDecimal ds n ∧ (u, unit) ∈ Duration.plainUnits := by
  rw [plainDuration?] at h
  split at h
  next => cases h
  next u hlast =>
    simp only at h
    split at h
    next => cases h
    next seconds hunit =>
      split at h
      next => cases h
      next hcond =>
        obtain ⟨unit, hu, -⟩ := exists_of_plainUnit? hunit
        rw [Bool.or_eq_true, not_or, Bool.not_eq_true', Bool.not_eq_false,
          List.isEmpty_iff, List.all_eq_true] at hcond
        have hcut : text = text.dropLast ++ [u] :=
          (List.dropLast_append_getLast? u hlast).symm
        exact ⟨_, _, u, unit, hcut, isDecimal_of_isDigit hcond.1 hcond.2, hu⟩

/-! ## Any general reader -/

/-- What reading plain units apart from all others relies on: a general reader takes sums of plain
terms, unless their seconds leave the range. -/
structure ReadsSums (general : List Char → Except Duration.Fault Duration) : Prop where
  nil : general [] = .error .empty
  sum {text : List Char} {n : Nat} (h : Duration.PlainSum text n) (hne : text ≠ []) :
    general text = if maxUnsigned64 < n then .error .overflow else .ok (.ofSeconds n)

/-- The general reader adds up plain terms. -/
theorem readsSums_read : ReadsSums Duration.read :=
  ⟨rfl, Duration.read_of_plainSum⟩

/-- A duration, with any reader for the general form. -/
def durationBy (general : List Char → Except Duration.Fault Duration) (text : List Char) :
    Except Error Duration :=
  let trimmed := trim text
  if trimmed.isEmpty then fault .durationEmpty text
  else
    match plainDuration? trimmed with
    | some (some seconds) => .ok (.ofSeconds seconds)
    | some none => fault .durationTooLong text
    | none =>
      match general trimmed with
      | .ok d => .ok d
      | .error .carry => .error .beyondRange
      | .error f => fault (.durationInvalid f) text

/-- With the general reader, lengths of time are read as they are. -/
theorem durationBy_read : durationBy Duration.read = duration := rfl

/-- Whether a duration is what a general reader makes of it: the same length, no result, or a
fault. -/
structure Agrees (own : Except Error Duration) (general : Except Duration.Fault Duration) :
    Prop where
  ok_iff (d : Duration) : own = .ok d ↔ general = .ok d
  beyondRange_iff : own = .error .beyondRange ↔ general = .error .carry

section General

variable {general : List Char → Except Duration.Fault Duration} {text : List Char}

/-- A whole number of a plain unit is a duration up to the greatest number of seconds, and longer
ones are refused, whatever the general reader does. -/
theorem durationBy_plain {ds : List Char} {n : Nat} {u : Char} {unit : Duration.TimeUnit}
    (htext : trim text = ds ++ [u]) (hds : IsDecimal ds n)
    (hu : (u, unit) ∈ Duration.plainUnits) :
    durationBy general text =
      if maxUnsigned64 < n * unit.seconds then fault .durationTooLong text
      else .ok (.ofSeconds (n * unit.seconds)) := by
  have hne : (ds ++ [u]).isEmpty = false := by simp
  rw [durationBy, htext]
  simp only [hne, plainDuration?_plain hds hu]
  by_cases hlong : maxUnsigned64 < n * unit.seconds
  · simp [hlong]
  · simp [hlong]

/-- Plain units have a reader of their own, but it takes the texts that the general one takes, and
for the same lengths of time. -/
theorem ReadsSums.agrees (h : ReadsSums general) (text : List Char) :
    Agrees (durationBy general text) (general (trim text)) := by
  cases hplain : plainDuration? (trim text) with
  | some result =>
    obtain ⟨ds, n, u, unit, hcut, hds, hu⟩ := exists_of_plainDuration? hplain
    -- digits and a plain unit are a sum of a single term
    have hread := h.sum (.cons hds Text.blanks_nil hu Text.blanks_nil .nil) (by simp)
    rw [List.nil_append, List.nil_append, Nat.add_zero] at hread
    rw [durationBy_plain hcut hds hu, hcut, hread]
    by_cases hlong : maxUnsigned64 < n * unit.seconds
    · exact ⟨by simp [hlong, fault], by simp [hlong, fault]⟩
    · exact ⟨by simp [hlong], by simp [hlong]⟩
  | none =>
    -- any other text is left to the general reader, but for a blank one
    rw [durationBy]
    simp only [hplain]
    split
    next hempty =>
      rw [List.isEmpty_iff.1 hempty, h.nil]
      exact ⟨by simp [fault], by simp [fault]⟩
    next =>
      cases general (trim text) with
      | ok d => exact ⟨by simp, by simp⟩
      | error f => cases f <;> exact ⟨by simp [fault], by simp [fault]⟩

end General

/-- **The two readers of durations agree.** -/
theorem duration_eq_ok_iff {text : List Char} {d : Duration} :
    duration text = .ok d ↔ Duration.read (trim text) = .ok d :=
  (readsSums_read.agrees text).ok_iff d

end Telemetry.Query
