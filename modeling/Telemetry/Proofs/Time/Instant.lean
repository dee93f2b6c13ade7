import Telemetry.Proofs.Fallible
import Telemetry.Time.Bound

/-!
Instants as numbers of nanoseconds: their order, the words they are stored in, and how far one can
go back from them.

Going back by a length of time is subtraction of nanoseconds, also from a leap second
(`toNanos_shift_neg`). It can go wrong in two ways: a length that is too long to be converted is
refused with an error, and a length that can be converted but reaches to before the calendar is not
noticed beforehand, so that the subtraction itself has no result (`Overreaches`).
-/

set_option autoImplicit false

namespace Telemetry.Time

namespace Instant

/-! ## Order

A leap second has a second of nanoseconds on top of the last one, so the number of nanoseconds
since the epoch does not order all instants. The rank does. -/

theorem nano_lt_of_not_leap {t : Instant} (h : t.isLeap = false) : t.nano < 1000000000 :=
  Nat.not_le.1 (of_decide_eq_false h)

/-- A number by which instants are ordered, those in leap seconds included. -/
def rank (t : Instant) : Int := t.second * 2000000000 + t.nano

/-- Instants are ordered by their ranks. -/
theorem le_iff_rank_le {a b : Instant} : a ≤ b ↔ a.rank ≤ b.rank := by
  have hna := a.nano_lt
  have hnb := b.nano_lt
  rw [le_iff, lt_iff, rank, rank]
  omega

theorem lt_iff_rank_lt {a b : Instant} : a < b ↔ a.rank < b.rank := by
  rw [← Int.not_le, ← le_iff_rank_le, le_iff, Decidable.not_not]

/-- The rank tells instants apart. -/
theorem eq_iff_rank_eq {a b : Instant} : a = b ↔ a.rank = b.rank := by
  constructor
  · intro h
    rw [h]
  · intro h
    have hna := a.nano_lt
    have hnb := b.nano_lt
    unfold rank at h
    apply ext <;> omega

theorem lt_trans {a b c : Instant} (hab : a < b) (hbc : b < c) : a < c := by
  rw [lt_iff_rank_lt] at *
  omega

theorem ne_of_lt {a b : Instant} (h : a < b) : a ≠ b := by
  rw [lt_iff_rank_lt] at h
  rw [ne_eq, eq_iff_rank_eq]
  omega

/-- What is not behind and not equal is before. -/
theorem lt_of_le_of_ne {a b : Instant} (hle : a ≤ b) (hne : a ≠ b) : a < b := by
  rw [le_iff_rank_le] at hle
  rw [ne_eq, eq_iff_rank_eq] at hne
  rw [lt_iff_rank_lt]
  omega

theorem le_refl (a : Instant) : a ≤ a := le_iff_rank_le.2 (Int.le_refl _)

theorem le_of_not_lt {a b : Instant} (h : ¬ a < b) : b ≤ a := le_iff.2 h

theorem le_of_lt {a b : Instant} (h : a < b) : a ≤ b := by
  rw [lt_iff_rank_lt] at h
  rw [le_iff_rank_le]
  omega

theorem le_trans {a b c : Instant} (hab : a ≤ b) (hbc : b ≤ c) : a ≤ c := by
  rw [le_iff, lt_iff] at *
  omega

theorem le_antisymm {a b : Instant} (hab : a ≤ b) (hba : b ≤ a) : a = b := by
  rw [le_iff, lt_iff] at hab hba
  apply ext <;> omega

/-- The later of two is not before the first. -/
theorem le_latest_left (a b : Instant) : a ≤ latest a b := by
  unfold latest
  by_cases h : a < b
  · rw [if_pos h]
    exact le_of_lt h
  · rw [if_neg h]
    exact le_refl a

/-- The later of two is not behind what neither is behind. -/
theorem latest_le {a b c : Instant} (ha : a ≤ c) (hb : b ≤ c) : latest a b ≤ c := by
  unfold latest
  by_cases h : a < b
  · rwa [if_pos h]
  · rwa [if_neg h]

/-- Without leap seconds instants are ordered like their nanoseconds. -/
theorem le_iff_toNanos_le {a b : Instant} (ha : a.isLeap = false) (hb : b.isLeap = false) :
    a ≤ b ↔ a.toNanos ≤ b.toNanos := by
  have hna := nano_lt_of_not_leap ha
  have hnb := nano_lt_of_not_leap hb
  rw [le_iff, lt_iff, toNanos, toNanos, nanosPerSecond]
  omega

@[inherit_doc le_iff_toNanos_le]
theorem lt_iff_toNanos_lt {a b : Instant} (ha : a.isLeap = false) (hb : b.isLeap = false) :
    a < b ↔ a.toNanos < b.toNanos := by
  rw [← Int.not_le, ← le_iff_toNanos_le hb ha, le_iff, Decidable.not_not]

/-- Without leap seconds, the later of two has the greater number of nanoseconds. -/
theorem toNanos_latest {a b : Instant} (ha : a.isLeap = false) (hb : b.isLeap = false) :
    (latest a b).toNanos = max a.toNanos b.toNanos := by
  unfold latest
  by_cases h : a < b
  · rw [if_pos h]
    rw [lt_iff_toNanos_lt ha hb] at h
    omega
  · rw [if_neg h]
    rw [lt_iff_toNanos_lt ha hb] at h
    omega

/-- The time between two instants without leap seconds is the difference of their nanoseconds. -/
theorem since_of_not_leap {a b : Instant} (ha : a.isLeap = false) (hb : b.isLeap = false) :
    a.since b = a.toNanos - b.toNanos := by
  simp only [since, ha, hb, Bool.false_eq_true, and_false, if_false, toNanos, Int.ofNat_eq_natCast]
  rw [Int.add_zero, Int.sub_mul]
  omega

@[simp] theorem isLeap_ofNanos (n : Int) : (ofNanos n).isLeap = false := by
  refine decide_eq_false ?_
  simp only [ofNanos, nanosPerSecond]
  omega

/-! ## Words

Tables store an instant as a signed word, which not every instant has. The words of the wire have
no sign, and those are taken that fit a signed one. -/

/-- An instant whose nanoseconds fit a word is stored as them. -/
theorem toWord_eq_ok {t : Instant} (h : Text.Integer.fitsSigned64 t.toNanos = true) :
    t.toWord = .ok t.toNanos := by
  rw [toWord, toWord?, if_pos h]

/-- An instant whose nanoseconds do not fit is refused by its name. -/
theorem toWord_eq_error {t : Instant} (h : Text.Integer.fitsSigned64 t.toNanos = false) :
    t.toWord = .error (.invalidArgument (.unrepresentable t)) := by
  rw [toWord, toWord?, if_neg (by rw [h]; exact Bool.false_ne_true)]

/-- A time of a message that is taken is its nanoseconds, within a signed word. -/
theorem of_ofWire_eq_ok {nanos : UInt64} {t : Instant} (h : ofWire nanos = .ok t) :
    nanos.toNat ≤ Text.Integer.maxSigned64 ∧ t = ofNanos nanos.toNat := by
  rw [ofWire] at h
  split at h
  next hle =>
    cases h
    exact ⟨hle, rfl⟩
  next => cases h

/-- What comes from the wire fits a word. -/
theorem fits_of_ofWire {nanos : UInt64} {t : Instant} (h : ofWire nanos = .ok t) :
    Text.Integer.fitsSigned64 t.toNanos = true := by
  obtain ⟨hle, rfl⟩ := of_ofWire_eq_ok h
  rw [toNanos_ofNanos, Text.Integer.fitsSigned64, decide_eq_true_eq]
  rw [Text.Integer.maxSigned64] at hle
  omega

/-! ## The beginning of the calendar

The calendar ends on both sides, but only its beginning can be reached by going back. -/

/-- The first nanosecond of the calendar. -/
def calendarStart : Int := firstSecond * nanosPerSecond

theorem inCalendar_iff {t : Instant} :
    t.inCalendar = true ↔ firstSecond ≤ t.second ∧ t.second ≤ lastSecond := by
  rw [inCalendar, Bool.and_eq_true, decide_eq_true_eq, decide_eq_true_eq]

/-- Whatever fits a word lies in the calendar. -/
theorem inCalendar_of_fits {t : Instant} (h : Text.Integer.fitsSigned64 t.toNanos = true) :
    t.inCalendar = true := by
  have hlt := t.nano_lt
  rw [Text.Integer.fitsSigned64, decide_eq_true_eq] at h
  simp only [toNanos, nanosPerSecond] at h
  simp only [inCalendar_iff, firstSecond, lastSecond]
  omega

/-! ## Going back

Going back from a leap second may stay inside of it. In all other cases it is a subtraction of
nanoseconds, which fails exactly where it leaves the calendar. -/

/-- Moving back by less than a second inside of a leap second stays there; every other move back
is a subtraction of nanoseconds, and ends outside of leap seconds. -/
theorem shift_neg_cases (t : Instant) {n : Int} (hn : 0 ≤ n) :
    (t.shift (-n) = ofNanos (t.toNanos - n) ∧ t.nano < nanosPerSecond + n) ∨
      ((t.shift (-n)).second = t.second ∧ ((t.shift (-n)).nano : Int) = t.nano - n) := by
  have hsec : (nanosPerSecond : Int) = 1000000000 := rfl
  -- the whole seconds and the rest of a move back are those of the move forward, negated
  have hdiv : (-n).tdiv 1000000000 = -(n / 1000000000) := by
    rw [Int.neg_tdiv, Int.tdiv_eq_ediv_of_nonneg hn]
  have hmod : (-n).tmod 1000000000 = -(n % 1000000000) := by
    rw [Int.neg_tmod, Int.tmod_eq_emod_of_nonneg hn]
  have hlt := t.nano_lt
  simp only [shift, toNanos, hsec]
  simp only [hdiv, hmod]
  -- inside of a leap second a move back may stay in it; from anywhere else the nanoseconds are
  -- subtracted
  split
  next hleap =>
    have hge : 1000000000 ≤ t.nano := of_decide_eq_true hleap
    rw [if_neg (by omega)]
    split
    · refine .inl ⟨congrArg _ ?_, ?_⟩ <;> omega
    · rw [dif_pos (by omega)]
      refine .inr ⟨rfl, ?_⟩
      simp only
      omega
  next hleap =>
    have hnano := nano_lt_of_not_leap (Bool.eq_false_iff.2 hleap)
    refine .inl ⟨congrArg _ ?_, ?_⟩ <;> omega

/-- Going back subtracts from the nanoseconds. -/
theorem toNanos_shift_neg (t : Instant) {n : Int} (hn : 0 ≤ n) :
    (t.shift (-n)).toNanos = t.toNanos - n := by
  rcases t.shift_neg_cases hn with ⟨h, -⟩ | ⟨hs, hm⟩
  · rw [h, toNanos_ofNanos]
  · rw [toNanos, toNanos, hs, hm]
    omega

/-- Moving back does not lead forward, out of a leap second neither. -/
theorem shift_neg_le (t : Instant) {n : Int} (hn : 0 ≤ n) : t.shift (-n) ≤ t := by
  rw [le_iff, lt_iff]
  rcases t.shift_neg_cases hn with ⟨h, hlt⟩ | ⟨hsecond, hnano⟩
  · rw [h]
    simp only [ofNanos, toNanos, nanosPerSecond] at hlt ⊢
    omega
  · omega

/-- A move back from the calendar ends in it unless it reaches to before its beginning. -/
theorem inCalendar_shift_neg_iff {t : Instant} (ht : t.inCalendar = true) {n : Int} (hn : 0 ≤ n) :
    (t.shift (-n)).inCalendar = true ↔ calendarStart ≤ t.toNanos - n := by
  have hlt := t.nano_lt
  rw [inCalendar_iff] at ht ⊢
  simp only [calendarStart, toNanos, firstSecond, lastSecond, nanosPerSecond] at *
  rcases t.shift_neg_cases hn with ⟨h, hnano⟩ | ⟨hs, hm⟩
  · rw [h]
    simp only [ofNanos, toNanos, nanosPerSecond] at hnano ⊢
    omega
  · rw [hs]
    omega

/-- Going back has a result while it stays in the calendar. -/
theorem minus_eq_ok {t : Instant} (ht : t.inCalendar = true) {n : Int} (hn : 0 ≤ n)
    (h : calendarStart ≤ t.toNanos - n) : t.minus n = .ok (t.shift (-n)) := by
  have hin := (inCalendar_shift_neg_iff ht hn).2 h
  rw [minus, minus?, plus?, if_pos hin]

/-- Going back before the calendar begins panics. -/
theorem minus_eq_error {t : Instant} (ht : t.inCalendar = true) {n : Int} (hn : 0 ≤ n)
    (h : t.toNanos - n < calendarStart) : t.minus n = .error .beyondRange := by
  have hout : ¬ (t.shift (-n)).inCalendar = true := by
    rw [inCalendar_shift_neg_iff ht hn]
    omega
  rw [minus, minus?, plus?, if_neg hout]

/-- Going back has no result exactly if it reaches to before the calendar. -/
theorem minus?_eq_none_iff {t : Instant} (ht : t.inCalendar = true) {n : Int} (hn : 0 ≤ n) :
    t.minus? n = none ↔ t.toNanos - n < calendarStart := by
  have hin := inCalendar_shift_neg_iff ht hn
  rw [minus?, plus?]
  by_cases h : (t.shift (-n)).inCalendar = true
  · simp only [h, if_true, reduceCtorEq, false_iff, Int.not_lt]
    exact hin.1 h
  · simp only [h, Bool.false_eq_true, if_false, true_iff]
    exact Int.not_le.1 (mt hin.2 h)

/-- From what fits a word one can go back by any number of nanoseconds that lies between two such
instants. -/
theorem minus?_isSome_of_fits {t : Instant} (h : Text.Integer.fitsSigned64 t.toNanos = true)
    {n : Int} (hn : 0 ≤ n) (hlt : n < 0x10000000000000000) : (t.minus? n).isSome = true := by
  rw [Option.isSome_iff_ne_none, ne_eq, minus?_eq_none_iff (inCalendar_of_fits h) hn]
  rw [Text.Integer.fitsSigned64, decide_eq_true_eq] at h
  simp only [calendarStart, firstSecond, nanosPerSecond]
  omega

/-- Going back fails with a panic only. -/
theorem minus_eq_error_iff {t : Instant} {n : Int} {e : Error} :
    t.minus n = .error e ↔ e = .beyondRange ∧ t.minus? n = none := by
  rw [minus]
  cases t.minus? n <;> simp [eq_comm]

/-- What going back leads to lies in the calendar, by so many nanoseconds before. -/
theorem of_minus_eq_ok {t t' : Instant} {n : Int} (hn : 0 ≤ n) (h : t.minus n = .ok t') :
    t'.inCalendar = true ∧ t'.toNanos = t.toNanos - n := by
  rw [minus, minus?, plus?] at h
  by_cases hin : (t.shift (-n)).inCalendar = true
  · rw [if_pos hin] at h
    cases h
    exact ⟨hin, t.toNanos_shift_neg hn⟩
  · rw [if_neg hin] at h
    cases h

/-- Going back does not lead ahead. -/
theorem le_of_minus_eq_ok {t t' : Instant} {n : Int} (hn : 0 ≤ n) (h : t.minus n = .ok t') :
    t' ≤ t := by
  rw [minus, minus?, plus?] at h
  by_cases hin : (t.shift (-n)).inCalendar = true
  · rw [if_pos hin] at h
    cases h
    exact shift_neg_le t hn
  · rw [if_neg hin] at h
    cases h

/-! ## Going forward -/

/-- Outside of leap seconds a move is an addition of nanoseconds. -/
theorem shift_of_not_leap {t : Instant} (h : t.isLeap = false) (n : Int) :
    t.shift n = ofNanos (t.toNanos + n) := by
  have hsplit : n.tdiv nanosPerSecond * nanosPerSecond + n.tmod nanosPerSecond = n :=
    Int.tdiv_mul_add_tmod n nanosPerSecond
  rw [shift, h]
  refine congrArg ofNanos ?_
  rw [toNanos, Int.add_mul]
  omega

/-- An instant that is moved back lies before another one if it does so by its nanoseconds. -/
theorem shift_neg_le_iff {s t : Instant} (hs : s.isLeap = false) (ht : t.isLeap = false) (n : Int) :
    s.shift (-n) ≤ t ↔ s.toNanos - n ≤ t.toNanos := by
  rw [shift_of_not_leap hs, le_iff_toNanos_le (isLeap_ofNanos _) ht, toNanos_ofNanos,
    Int.sub_eq_add_neg]

/-- Without leap seconds, moving by the same length keeps instants apart. -/
theorem shift_inj {s t : Instant} (hs : s.isLeap = false) (ht : t.isLeap = false) {n : Int}
    (h : s.shift n = t.shift n) : s = t := by
  rw [shift_of_not_leap hs, shift_of_not_leap ht] at h
  have hnanos := congrArg toNanos h
  rw [toNanos_ofNanos, toNanos_ofNanos] at hnanos
  have hsame : s.toNanos = t.toNanos := by omega
  rw [← ofNanos_toNanos hs, ← ofNanos_toNanos ht, hsame]

/-- If there is a result of going back, it is the instant moved back. -/
theorem minus?_eq_some_of_isSome {t : Instant} {n : Int} (h : (t.minus? n).isSome = true) :
    t.minus? n = some (t.shift (-n)) := by
  rw [minus?, plus?] at *
  by_cases hin : (t.shift (-n)).inCalendar = true
  · rw [if_pos hin]
  · rw [if_neg hin] at h
    cases h

end Instant

/-! ## Going back by a length of time

A length of time is first turned into a signed one, which fails if it is too long, and then
subtracted. Where the first succeeds and the second does not, the calendar is overreached. -/

theorem Duration.toSigned_eq_ok {d : Duration} (h : d.nanos ≤ limit) :
    d.toSigned = .ok (d.nanos : Int) := by
  rw [toSigned, toSigned?, if_pos h]

theorem Duration.toSigned_eq_error {d : Duration} (h : limit < d.nanos) :
    d.toSigned = .error (.invalidArgument .durationTooLong) := by
  rw [toSigned, toSigned?, if_neg (Nat.not_le.2 h)]

/-- Only durations within the limit have a signed number. -/
theorem Duration.of_toSigned_eq_ok {d : Duration} {n : Int} (h : d.toSigned = .ok n) :
    d.nanos ≤ limit ∧ n = d.nanos := by
  rcases Nat.lt_or_ge limit d.nanos with hlong | hshort
  · rw [toSigned_eq_error hlong] at h
    cases h
  · rw [toSigned_eq_ok hshort] at h
    exact ⟨hshort, (Except.ok.inj h).symm⟩

/-- Whether a length of time can be converted, but reaches from an instant to before the beginning
of the calendar. -/
def Overreaches (t : Instant) (d : Duration) : Prop :=
  d.nanos ≤ Duration.limit ∧ t.toNanos - d.nanos < Instant.calendarStart

instance (t : Instant) (d : Duration) : Decidable (Overreaches t d) :=
  inferInstanceAs (Decidable (_ ∧ _))

/-- A length of time overreaches exactly if it can be converted, and then not be subtracted. -/
theorem overreaches_iff {t : Instant} (ht : t.inCalendar = true) {d : Duration} :
    Overreaches t d ↔ ∃ n, d.toSigned = .ok n ∧ t.minus? n = none := by
  constructor
  · rintro ⟨hshort, hbefore⟩
    have hnone := (Instant.minus?_eq_none_iff ht (Int.natCast_nonneg d.nanos)).2 hbefore
    exact ⟨_, Duration.toSigned_eq_ok hshort, hnone⟩
  · rintro ⟨n, hn, hnone⟩
    obtain ⟨hshort, rfl⟩ := Duration.of_toSigned_eq_ok hn
    exact ⟨hshort, (Instant.minus?_eq_none_iff ht (Int.natCast_nonneg d.nanos)).1 hnone⟩

/-- The instant a length of time before another one. -/
def Instant.back (t : Instant) (d : Duration) : Except Error Instant := do t.minus (← d.toSigned)

/-- A length of time that is too long is refused, and one that overreaches is not; any other leads
to the instant so many nanoseconds before. -/
theorem Instant.back_cases {t : Instant} (ht : t.inCalendar = true) (d : Duration) :
    (Duration.limit < d.nanos ∧ t.back d = .error (.invalidArgument .durationTooLong)) ∨
    (Overreaches t d ∧ t.back d = .error .beyondRange) ∨
    (¬ Overreaches t d ∧ ∃ t', t.back d = .ok t' ∧ t'.inCalendar = true ∧
      t'.toNanos = t.toNanos - d.nanos) := by
  have hn : (0 : Int) ≤ d.nanos := Int.natCast_nonneg _
  rcases Nat.lt_or_ge Duration.limit d.nanos with hlong | hshort
  · left
    rw [back, Duration.toSigned_eq_error hlong]
    exact ⟨hlong, rfl⟩
  · right
    have hback : t.back d = t.minus d.nanos := by
      rw [back, Duration.toSigned_eq_ok hshort]
      rfl
    rw [hback]
    by_cases hout : t.toNanos - d.nanos < calendarStart
    · exact .inl ⟨⟨hshort, hout⟩, minus_eq_error ht hn hout⟩
    · have hok := minus_eq_ok ht hn (Int.not_lt.1 hout)
      exact .inr ⟨fun h => hout h.2, _, hok, of_minus_eq_ok hn hok⟩

/-- Going back by a duration panics exactly if it overreaches. -/
theorem Instant.back_eq_beyondRange_iff {t : Instant} (ht : t.inCalendar = true) (d : Duration) :
    t.back d = .error .beyondRange ↔ Overreaches t d := by
  rcases back_cases ht d with ⟨hlong, h⟩ | ⟨hover, h⟩ | ⟨hover, t', h, -⟩
  · rw [h]
    simp only [Except.error.injEq, reduceCtorEq, false_iff]
    exact fun hover => absurd hover.1 (Nat.not_le.2 hlong)
  · exact ⟨fun _ => hover, fun _ => h⟩
  · rw [h]
    simp only [reduceCtorEq, false_iff]
    exact hover

/-- Whether a length of time can be converted, and does not reach from an instant to before the
beginning of the calendar. -/
def Reaches (t : Instant) (d : Duration) : Prop :=
  d.nanos ≤ Duration.limit ∧ Instant.calendarStart ≤ t.toNanos - d.nanos

instance (t : Instant) (d : Duration) : Decidable (Reaches t d) :=
  inferInstanceAs (Decidable (_ ∧ _))

theorem Reaches.back_eq_ok {t : Instant} (ht : t.inCalendar = true) {d : Duration}
    (h : Reaches t d) : t.back d = .ok (t.shift (-d.nanos)) := by
  rw [Instant.back, Duration.toSigned_eq_ok h.1]
  exact Instant.minus_eq_ok ht (Int.natCast_nonneg _) h.2

/-- By any other length of time one cannot go back. -/
theorem Instant.back_of_not_reaches {t : Instant} (ht : t.inCalendar = true) {d : Duration}
    (h : ¬ Reaches t d) :
    t.back d = .error (.invalidArgument .durationTooLong) ∨ t.back d = .error .beyondRange := by
  rcases Nat.lt_or_ge Duration.limit d.nanos with hlong | hshort
  · left
    rw [back, Duration.toSigned_eq_error hlong]
    rfl
  · right
    have hover : Overreaches t d := ⟨hshort, Int.not_le.1 fun hle => h ⟨hshort, hle⟩⟩
    exact (back_eq_beyondRange_iff ht d).2 hover

/-! ## Instants as texts

A text is a date or a length of time. Dates lie in the calendar, so it is only a length of time
that can overreach. -/

/-- Reading a number leaves the end of the text. -/
theorem number?_suffix {least most n : Nat} {cs rest : List Char}
    (h : number? least most cs = some (n, rest)) : rest <:+ cs := by
  unfold number? at h
  simp only [Option.ite_none_left_eq_some, Option.some.injEq, Prod.mk.injEq] at h
  obtain ⟨-, -, rfl⟩ := h
  exact List.drop_suffix _ _

/-- A character that was read stood at the beginning. -/
theorem literal?_eq_some {c : Char} {cs rest : List Char} (h : literal? c cs = some rest) :
    cs = c :: rest := by
  cases cs with
  | nil => cases h
  | cons d cs =>
    rw [literal?, Option.ite_none_right_eq_some] at h
    obtain ⟨rfl, h⟩ := h
    rw [Option.some.inj h]

/-- A text of RFC 3339 has a dash behind the year. -/
theorem dash_mem_of_strict? {cs : List Char} {t : Instant} (h : strict? cs = some t) :
    '-' ∈ cs := by
  unfold strict? at h
  simp only [Option.bind_eq_bind, Option.bind_eq_some_iff] at h
  obtain ⟨⟨year, behind⟩, hyear, rest, hdash, -⟩ := h
  have hsuffix : '-' :: rest <:+ cs := literal?_eq_some hdash ▸ number?_suffix hyear
  exact hsuffix.subset List.mem_cons_self

/-- An instant made of fields is in the calendar, because each field is checked. -/
theorem Fields.inCalendar_of_instant? {f : Fields} {t : Instant} (h : f.instant? = some t) :
    t.inCalendar = true := by
  simp only [instant?, Option.ite_none_right_eq_some, Option.dite_none_right_eq_some,
    Option.some.injEq] at h
  obtain ⟨-, _, hin, rfl⟩ := h
  exact hin

/-- What a text of RFC 3339 denotes lies in the calendar. -/
theorem inCalendar_of_strict? {cs : List Char} {t : Instant} (h : strict? cs = some t) :
    t.inCalendar = true := by
  unfold strict? at h
  simp only [Option.bind_eq_bind, Option.bind_eq_some_iff] at h
  repeat obtain ⟨_, -, h⟩ := h
  rw [Option.ite_none_left_eq_some] at h
  exact Fields.inCalendar_of_instant? h.2

/-- Whether a text of a request reaches from the reading of a clock to before the calendar, or
exhausts the seconds. -/
def TextOverreaches (clock : Instant) (text : String) : Prop :=
  strict? text.toList = none ∧
    (Duration.read text.toList = .error .carry ∨
      ∃ d, Duration.read text.toList = .ok d ∧ Overreaches clock d)

/-- Reading a time of a text panics exactly if the text is a duration that leads back beyond the
calendar. -/
theorem Instant.ofText_eq_beyondRange_iff {clock : Instant} (hclock : clock.inCalendar = true)
    {text : String} : ofText clock text = .error .beyondRange ↔ TextOverreaches clock text := by
  rw [ofText, TextOverreaches]
  cases strict? text.toList with
  | some t => simp
  | none =>
    cases hread : Duration.read text.toList with
    | error f => cases f <;> simp
    | ok d =>
      simp
      exact back_eq_beyondRange_iff hclock d

/-- What a text denotes lies in the calendar. -/
theorem Instant.inCalendar_of_ofText {clock t : Instant} {text : String}
    (h : ofText clock text = .ok t) : t.inCalendar = true := by
  rw [ofText] at h
  cases hstrict : strict? text.toList with
  | some t' =>
    rw [hstrict] at h
    cases h
    exact inCalendar_of_strict? hstrict
  | none =>
    rw [hstrict] at h
    cases hread : Duration.read text.toList with
    | error f =>
      rw [hread] at h
      cases f <;> cases h
    | ok d =>
      rw [hread] at h
      obtain ⟨n, hn, h⟩ := Fallible.bind_eq_ok h
      obtain ⟨-, rfl⟩ := Duration.of_toSigned_eq_ok hn
      exact (of_minus_eq_ok (Int.natCast_nonneg _) h).1

end Telemetry.Time
