import Telemetry.Proofs.Fallible
import Telemetry.Proofs.Text.Integer
import Telemetry.Proofs.Text.Spacing
import Telemetry.Time.Duration

/-!
Lengths of time that are written as sums of whole numbers of plain units, and the characters of
which any length of time is written.

Each term of a number and a unit with a letter of its own is added to the seconds so far, if they
fit, and a sum that does not fit is refused (`read_of_plainSum`). What holds of any other term is
read off the stages of the reader, one term at a time (`terms_eq_ok_iff`): so lengths of time
consist of digits, blanks, points and letters of units (`isTimeChar_of_read`).
-/

set_option autoImplicit false

namespace Telemetry.Time.Duration

open Telemetry.Text
open Integer (IsDecimal maxUnsigned64)

/-! ## Digits, blanks and letters -/

/-- A blank is no digit. -/
theorem digit?_of_isBlank {c : Char} (h : isBlank c = true) : Integer.digit? c = none := by
  rw [Integer.digit?, if_neg]
  intro hdigit
  rw [Bool.and_eq_true, decide_eq_true_eq, decide_eq_true_eq] at hdigit
  have hleast : 48 ≤ c.toNat := hdigit.1
  have hgreatest : c.toNat ≤ 57 := hdigit.2
  -- the digits lie between the blanks of ASCII and the others
  simp only [isBlank, Bool.or_eq_true, Bool.and_eq_true, beq_iff_eq, decide_eq_true_eq] at h
  omega

/-- A stage that goes on behind each blank goes on behind all blanks. Only its state, such as the
offset, tells how many there were. -/
theorem exists_skip_blanks {σ β : Type} {stage : σ → List Char → β}
    (hstep : ∀ s c cs, isBlank c = true → ∃ s', stage s (c :: cs) = stage s' cs) {b : List Char}
    (hb : Blanks b) (s : σ) (rest : List Char) :
    ∃ s', stage s (b ++ rest) = stage s' rest := by
  induction b generalizing s with
  | nil => exact ⟨s, rfl⟩
  | cons c cs ih =>
    obtain ⟨hc, hcs⟩ := List.forall_mem_cons.1 hb
    obtain ⟨s', hblank⟩ := hstep s c (cs ++ rest) hc
    rw [List.cons_append, hblank]
    exact ih hcs s'

/-- A letter of a unit lies between `A` and `z`, or is the micro sign. -/
theorem toNat_of_isUnitLetter {c : Char} (h : isUnitLetter c = true) :
    (65 ≤ c.toNat ∧ c.toNat ≤ 122) ∨ c.toNat = 181 := by
  simp only [isUnitLetter, Bool.or_eq_true, Bool.and_eq_true, decide_eq_true_eq, beq_iff_eq] at h
  rcases h with (⟨hleast, hgreatest⟩ | ⟨hleast, hgreatest⟩) | rfl
  · have hle : 97 ≤ c.toNat := hleast
    exact .inl ⟨by omega, hgreatest⟩
  · have hge : c.toNat ≤ 90 := hgreatest
    exact .inl ⟨hleast, by omega⟩
  · exact .inr rfl

/-- A blank is no letter of a unit. -/
theorem isUnitLetter_of_isBlank {c : Char} (h : isBlank c = true) : isUnitLetter c = false := by
  rw [Bool.eq_false_iff]
  intro hletter
  have hcode := toNat_of_isUnitLetter hletter
  simp only [isBlank, Bool.or_eq_true, Bool.and_eq_true, beq_iff_eq, decide_eq_true_eq] at h
  omega

/-- A digit is no letter of a unit. -/
theorem isUnitLetter_of_isDigit {c : Char} (h : c.isDigit = true) : isUnitLetter c = false := by
  rw [Bool.eq_false_iff]
  intro hletter
  have hcode := toNat_of_isUnitLetter hletter
  have hdigit : c.toNat ≤ 57 := (Char.isDigit_iff_toNat.1 h).2
  omega

/-! ## Numbers and plain units

A plain term is a number with a one-letter unit, which adds whole seconds. It fails only where the
number or the sum is too great for a word. -/

/-- Digits are read onto the number, as long as it does not leave the range. -/
theorem whole_digits {number : Nat} {ds : List Char} (hds : ∀ c ∈ ds, c.isDigit = true)
    (hle : Nat.ofDigitChars 10 ds number ≤ maxUnsigned64) (offset : Nat) (rest : List Char) :
    whole number offset (ds ++ rest) =
      whole (Nat.ofDigitChars 10 ds number) (offset + ds.length) rest := by
  induction ds generalizing number offset with
  | nil => rfl
  | cons c cs ih =>
    obtain ⟨hc, hcs⟩ := List.forall_mem_cons.1 hds
    rw [Nat.ofDigitChars_cons] at hle ⊢
    have hfits : ¬ maxUnsigned64 < 10 * number + (c.toNat - '0'.toNat) :=
      Nat.not_lt.2 (Nat.le_trans (Integer.le_ofDigitChars cs _) hle)
    have hlen : offset + 1 + cs.length = offset + (c :: cs).length := by
      rw [List.length_cons]
      omega
    rw [List.cons_append, whole, Integer.digit?_eq_some hc]
    simp only [if_neg hfits]
    rw [ih hcs hle, hlen]

/-- Digits that leave the range are refused, whatever stands behind them. -/
theorem whole_digits_eq_error {number : Nat} {ds : List Char}
    (hds : ∀ c ∈ ds, c.isDigit = true) (hnumber : number ≤ maxUnsigned64)
    (hlt : maxUnsigned64 < Nat.ofDigitChars 10 ds number) (offset : Nat) (rest : List Char) :
    whole number offset (ds ++ rest) = .error .overflow := by
  induction ds generalizing number offset with
  | nil => exact absurd hlt (Nat.not_lt.2 hnumber)
  | cons c cs ih =>
    obtain ⟨hc, hcs⟩ := List.forall_mem_cons.1 hds
    rw [Nat.ofDigitChars_cons] at hlt
    rw [List.cons_append, whole, Integer.digit?_eq_some hc]
    simp only
    split
    next => rfl
    next hfits => exact ih hcs (Nat.not_lt.1 hfits) hlt _

/-- Blanks behind the digits are skipped. -/
theorem whole_blanks {b : List Char} (hb : Blanks b) (number offset : Nat) (rest : List Char) :
    ∃ offset', whole number offset (b ++ rest) = whole number offset' rest := by
  refine exists_skip_blanks (fun o c cs hc => ?_) hb offset rest
  rw [whole, digit?_of_isBlank hc]
  simp only [if_pos hc]
  exact ⟨_, rfl⟩

/-- The units of which a whole number may be written with a single letter. -/
def plainUnits : List (Char × TimeUnit) :=
  [('s', .second), ('m', .minute), ('h', .hour), ('d', .day)]

/-- Each plain unit has its letter for a name. -/
theorem ofName?_plain : ∀ p ∈ plainUnits, TimeUnit.ofName? (String.ofList [p.1]) = some p.2 := by
  decide

/-- A plain unit is a whole number of seconds. -/
theorem nanoseconds_plain : ∀ p ∈ plainUnits, p.2.nanoseconds = 0 ∧ 0 < p.2.seconds := by
  decide

theorem isUnitLetter_plain : ∀ p ∈ plainUnits, isUnitLetter p.1 = true := by
  decide

/-- The letter of a plain unit ends the digits. -/
theorem whole_plain {u : Char} {unit : TimeUnit} (hu : (u, unit) ∈ plainUnits)
    (number offset : Nat) (rest : List Char) :
    whole number offset (u :: rest) = .ok (number, .unit offset (u :: rest)) := by
  simp only [plainUnits, List.mem_cons, Prod.mk.injEq, List.not_mem_nil, or_false] at hu
  rcases hu with ⟨rfl, -⟩ | ⟨rfl, -⟩ | ⟨rfl, -⟩ | ⟨rfl, -⟩ <;> rfl

/-- No name of a unit starts with blanks, with digits or at the end. Of blanks the first is read. -/
theorem unitName_of_blanks {b rest : List Char} (hb : Blanks b)
    (hrest : ∀ c ∈ rest.head?, c.isDigit = true) (offset : Nat) :
    ∃ offset' b', Blanks b' ∧ unitName offset (b ++ rest) = .ok ([], offset', b' ++ rest) := by
  cases b with
  | cons c b =>
    obtain ⟨hc, hb⟩ := List.forall_mem_cons.1 hb
    refine ⟨offset + c.utf8Size, b, hb, ?_⟩
    rw [List.cons_append, unitName, isUnitLetter_of_isBlank hc, digit?_of_isBlank hc]
    simp [hc]
  | nil =>
    refine ⟨offset, [], Text.blanks_nil, ?_⟩
    cases rest with
    | nil => rfl
    | cons d rest =>
      have hd := hrest d rfl
      rw [List.nil_append, unitName, isUnitLetter_of_isDigit hd, Integer.digit?_eq_some hd]
      rfl

/-- Whole seconds are added to whole seconds, as long as the sum fits. -/
theorem add_ofSeconds (total seconds : Nat) :
    add (ofSeconds total) seconds 0 =
      if maxUnsigned64 < total + seconds then .error .overflow
      else .ok (ofSeconds (total + seconds)) := by
  have hwhole : (ofSeconds total).seconds = total := by
    simp [Duration.seconds, ofSeconds]
  have hrest : (ofSeconds total).subsecond = 0 := by
    simp [subsecond, ofSeconds]
  have hsum : (ofSeconds total).nanos + seconds * 1000000000 + 0 =
      (total + seconds) * 1000000000 := by
    rw [Nat.add_zero, ofSeconds, Nat.add_mul]
  have hzero : ¬ maxUnsigned64 < 0 + 0 := by decide
  have hcarry : ¬ 1000000000 < 0 + 0 := by decide
  rw [add, hwhole, hrest, hsum]
  simp only [hzero, hcarry, if_false, false_or, Nat.add_zero seconds]
  rfl

/-- The seconds of so many whole units are added to a sum, as long as they fit. -/
theorem addTerm_eq_add {u : Char} {unit : TimeUnit} (hu : (u, unit) ∈ plainUnits) {n : Nat}
    (hn : n * unit.seconds ≤ maxUnsigned64) (sum : Duration) :
    addTerm sum n none (String.ofList [u]) = add sum (n * unit.seconds) 0 := by
  have hseconds : product n unit.seconds = .ok (n * unit.seconds) := by
    rw [product, if_neg (Nat.not_lt.2 hn)]
  have hnanoseconds : product n unit.nanoseconds = .ok 0 := by
    rw [(nanoseconds_plain _ hu).1, product, Nat.mul_zero, if_neg (by decide)]
  rw [addTerm, ofName?_plain _ hu]
  simp only [hseconds, hnanoseconds, bind, Except.bind]
  cases add sum (n * unit.seconds) 0 <;> rfl

/-- So many whole units are added to so many seconds, as long as the sum fits. -/
theorem addTerm_plain {u : Char} {unit : TimeUnit} (hu : (u, unit) ∈ plainUnits) (total n : Nat) :
    addTerm (ofSeconds total) n none (String.ofList [u]) =
      if maxUnsigned64 < total + n * unit.seconds then .error .overflow
      else .ok (ofSeconds (total + n * unit.seconds)) := by
  rcases Nat.lt_or_ge maxUnsigned64 (n * unit.seconds) with hlong | hfits
  · rw [if_pos (by omega), addTerm, ofName?_plain _ hu]
    simp only [product, if_pos hlong]
    rfl
  · rw [addTerm_eq_add hu hfits, add_ofSeconds]

/-! ## One term after another

The reader goes on term by term. A term is a number, perhaps a fraction, and the name of a unit,
and what stands behind it is read in the same way. -/

/-- The fraction and the letters that stand behind the whole digits. -/
def Behind.fraction : Behind → Except Fault (Option Fraction × Nat × List Char)
  | .unit offset rest => .ok (none, offset, rest)
  | .point offset rest => do
    let (fraction, offset, rest) ← fractionDigits 0 1 offset (offset + 1) rest
    return (some fraction, offset, rest)

/-- Whether a text starts with a term that makes `sum'` of a sum, and goes on with `rest`. -/
inductive Term (sum : Duration) (offset : Nat) (cs : List Char) :
    Duration → Nat → List Char → Prop
  | intro {digit number : Nat} {behind : Behind} {fraction : Option Fraction} {sum' : Duration}
      {o o' o'' : Nat} {digits letters name rest : List Char}
      (hfirst : firstDigit offset offset cs = .ok (some (digit, o, digits)))
      (hwhole : whole digit o digits = .ok (number, behind))
      (hfraction : behind.fraction = .ok (fraction, o', letters))
      (hname : unitName o' letters = .ok (name, o'', rest))
      (hadd : sum.addTerm number fraction (String.ofList name) = .ok sum') :
      Term sum offset cs sum' o'' rest

/-- Behind the first digit of a number come its other digits, a fraction, and the unit. -/
theorem terms_succ (fuel : Nat) (first : Bool) (sum : Duration) (offset : Nat) (cs : List Char) :
    terms (fuel + 1) first sum offset cs = (do
      let some (digit, o, digits) ← firstDigit offset offset cs
        | if first then throw .empty else return sum
      let (number, behind) ← whole digit o digits
      let (fraction, o', letters) ← behind.fraction
      let (name, o'', rest) ← unitName o' letters
      let sum' ← sum.addTerm number fraction (String.ofList name)
      terms fuel false sum' o'' rest) := by
  rw [terms]
  rcases firstDigit offset offset cs with _ | _ | ⟨digit, o, digits⟩
  · rfl
  · rfl
  · simp only [bind, Except.bind]
    rcases whole digit o digits with _ | ⟨number, behind⟩
    · rfl
    · cases behind with
      | unit => rfl
      | point o' letters =>
        simp only [Behind.fraction, bind, Except.bind]
        cases fractionDigits 0 1 o' (o' + 1) letters <;> rfl

/-- Terms are read one after another, until only blanks are left. -/
theorem terms_eq_ok_iff {fuel : Nat} {first : Bool} {sum d : Duration} {offset : Nat}
    {cs : List Char} :
    terms (fuel + 1) first sum offset cs = .ok d ↔
      (firstDigit offset offset cs = .ok none ∧ first = false ∧ sum = d) ∨
        ∃ sum' offset' rest, Term sum offset cs sum' offset' rest ∧
          terms fuel false sum' offset' rest = .ok d := by
  rw [terms_succ]
  constructor
  · intro h
    obtain ⟨found, hfirst, h⟩ := Fallible.bind_eq_ok h
    rcases found with _ | ⟨digit, o, digits⟩
    · left
      cases first with
      | true => cases h
      | false => exact ⟨hfirst, rfl, Except.ok.inj h⟩
    · right
      -- each step of the reader gives one part of the term
      obtain ⟨⟨number, behind⟩, hwhole, h⟩ := Fallible.bind_eq_ok h
      obtain ⟨⟨fraction, o', letters⟩, hfraction, h⟩ := Fallible.bind_eq_ok h
      obtain ⟨⟨name, o'', rest⟩, hname, h⟩ := Fallible.bind_eq_ok h
      obtain ⟨sum', hadd, h⟩ := Fallible.bind_eq_ok h
      exact ⟨sum', o'', rest, .intro hfirst hwhole hfraction hname hadd, h⟩
  · rintro (⟨hfirst, rfl, rfl⟩ | ⟨sum', o'', rest, ⟨hfirst, hwhole, hfraction, hname, hadd⟩, h⟩)
    · rw [hfirst]
      rfl
    · simp only [hfirst, hwhole, hfraction, hname, hadd, bind, Except.bind]
      exact h

/-! ## Sums of plain terms

A text is a plain sum if it is terms with blanks around them. The reader adds them up, and
overflows exactly if their sum does. -/

/-- Whether a text is a sum of whole numbers of plain units, and of so many seconds. Blanks may
stand before a unit and behind it. -/
inductive PlainSum : List Char → Nat → Prop
  | nil : PlainSum [] 0
  | cons {ds b e text : List Char} {n seconds : Nat} {u : Char} {unit : TimeUnit}
      (hds : IsDecimal ds n) (hb : Blanks b) (hu : (u, unit) ∈ plainUnits) (he : Blanks e)
      (h : PlainSum text seconds) :
      PlainSum (ds ++ (b ++ u :: (e ++ text))) (n * unit.seconds + seconds)

/-- A term starts with a digit. -/
theorem PlainSum.isDigit_head {text : List Char} {n : Nat} (h : PlainSum text n) :
    ∀ c ∈ text.head?, c.isDigit = true := by
  cases h with
  | nil => simp
  | cons hds =>
    obtain ⟨c, cs, rfl⟩ := List.exists_cons_of_ne_nil hds.1
    intro c' hc'
    cases hc'
    exact hds.2.1 c List.mem_cons_self

/-- Blanks before a number are skipped. -/
theorem firstDigit_blanks {b : List Char} (hb : Blanks b) (start offset : Nat)
    (rest : List Char) :
    ∃ offset', firstDigit start offset (b ++ rest) = firstDigit start offset' rest := by
  refine exists_skip_blanks (fun o c cs hc => ?_) hb offset rest
  rw [firstDigit, digit?_of_isBlank hc]
  simp only [if_pos hc]
  exact ⟨_, rfl⟩

/-- A number is read up to its unit, unless it leaves the range. -/
theorem whole_of_isDecimal {ds b b' : List Char} {n : Nat} {u : Char} {unit : TimeUnit}
    (hb : Blanks b) (hds : IsDecimal ds n) (hb' : Blanks b') (hu : (u, unit) ∈ plainUnits)
    (start offset : Nat) (rest : List Char) :
    ∃ digit o digits,
      firstDigit start offset (b ++ (ds ++ (b' ++ u :: rest))) = .ok (some (digit, o, digits)) ∧
        ((maxUnsigned64 < n ∧ whole digit o digits = .error .overflow) ∨
          (n ≤ maxUnsigned64 ∧ ∃ o', whole digit o digits = .ok (n, .unit o' (u :: rest)))) := by
  obtain ⟨hne, hdigits, rfl⟩ := hds
  obtain ⟨c, cs, rfl⟩ := List.exists_cons_of_ne_nil hne
  obtain ⟨hc, hcs⟩ := List.forall_mem_cons.1 hdigits
  have hzero : 10 * 0 + (c.toNat - '0'.toNat) = c.toNat - '0'.toNat := by omega
  rw [Nat.ofDigitChars_cons, hzero]
  -- the first digit opens the number, and the others follow up to the unit
  obtain ⟨o, hskip⟩ := firstDigit_blanks hb start offset (c :: cs ++ (b' ++ u :: rest))
  refine ⟨c.toNat - '0'.toNat, o + 1, cs ++ (b' ++ u :: rest), ?_, ?_⟩
  · rw [hskip, List.cons_append, firstDigit, Integer.digit?_eq_some hc]
  · rcases Nat.lt_or_ge maxUnsigned64 (Nat.ofDigitChars 10 cs (c.toNat - '0'.toNat)) with
      hlt | hfits
    · have hdigit : c.toNat - '0'.toNat ≤ maxUnsigned64 :=
        Nat.le_trans (Integer.digit_le hc) (by decide)
      exact .inl ⟨hlt, whole_digits_eq_error hcs hdigit hlt _ _⟩
    · obtain ⟨o', hblanks⟩ := whole_blanks hb' (Nat.ofDigitChars 10 cs (c.toNat - '0'.toNat))
        (o + 1 + cs.length) (u :: rest)
      refine .inr ⟨hfits, o', ?_⟩
      rw [whole_digits hcs hfits, hblanks, whole_plain hu]

/-- A plain term is added, and what follows is read onto the sum. -/
theorem terms_plain {ds b b' e rest : List Char} {n : Nat} {u : Char} {unit : TimeUnit}
    (hb : Blanks b) (hds : IsDecimal ds n) (hb' : Blanks b') (hu : (u, unit) ∈ plainUnits)
    (he : Blanks e) (hrest : ∀ c ∈ rest.head?, c.isDigit = true) (fuel : Nat) (first : Bool)
    (total offset : Nat) :
    ∃ offset' e', Blanks e' ∧
      terms (fuel + 1) first (ofSeconds total) offset (b ++ (ds ++ (b' ++ u :: (e ++ rest)))) =
        if maxUnsigned64 < total + n * unit.seconds then .error .overflow
        else terms fuel false (ofSeconds (total + n * unit.seconds)) offset' (e' ++ rest) := by
  obtain ⟨digit, o, digits, hfirst, hnumber⟩ :=
    whole_of_isDecimal hb hds hb' hu offset offset (e ++ rest)
  -- the number alone is too great for a word, or the sum with its seconds decides
  obtain ⟨hlt, hwhole⟩ | ⟨-, o', hwhole⟩ := hnumber
  · have hseconds : maxUnsigned64 < n * unit.seconds :=
      Nat.lt_of_lt_of_le hlt (Nat.le_mul_of_pos_right _ (nanoseconds_plain _ hu).2)
    refine ⟨0, [], Text.blanks_nil, ?_⟩
    rw [if_pos (by omega), terms_succ, hfirst]
    simp only [hwhole, bind, Except.bind]
  · obtain ⟨o'', e', he', hname⟩ := unitName_of_blanks he hrest (o' + u.utf8Size)
    have hunit : unitName o' (u :: (e ++ rest)) = .ok ([u], o'', e' ++ rest) := by
      rw [unitName, if_pos (isUnitLetter_plain _ hu), hname]
      rfl
    refine ⟨o'', e', he', ?_⟩
    rw [terms_succ, hfirst]
    simp only [hwhole, Behind.fraction, hunit, addTerm_plain hu, bind, Except.bind]
    by_cases hlong : maxUnsigned64 < total + n * unit.seconds
    · simp only [if_pos hlong]
    · simp only [if_neg hlong]

/-- Plain terms are added up, as long as the fuel lasts for them. -/
theorem terms_of_plainSum {text b : List Char} {n total fuel : Nat} {first : Bool}
    (h : PlainSum text n) (hb : Blanks b) (hfirst : first = true → text ≠ [])
    (htotal : total ≤ maxUnsigned64) (hfuel : text.length < fuel) (offset : Nat) :
    terms fuel first (ofSeconds total) offset (b ++ text) =
      if maxUnsigned64 < total + n then .error .overflow else .ok (ofSeconds (total + n)) := by
  -- the blanks behind one unit are those before the next number, so they may be any blanks here
  induction h generalizing b total fuel first offset with
  | nil =>
    obtain ⟨fuel, rfl⟩ : ∃ k, fuel = k + 1 := ⟨fuel - 1, by omega⟩
    obtain ⟨o, hskip⟩ := firstDigit_blanks hb offset offset []
    have hlater : first = false := by simpa using hfirst
    rw [Nat.add_zero total, if_neg (Nat.not_lt.2 htotal), terms, hskip, hlater]
    rfl
  | @cons ds b' e text n seconds u unit hds hb' hu he h ih =>
    obtain ⟨fuel, rfl⟩ : ∃ k, fuel = k + 1 := ⟨fuel - 1, by omega⟩
    obtain ⟨o, e', he', hterm⟩ :=
      terms_plain hb hds hb' hu he h.isDigit_head fuel first total offset
    rw [hterm, ← Nat.add_assoc]
    split
    -- a sum that has left the range at one term does not come back to it
    next hlong => rw [if_pos (by omega)]
    next hfits =>
      refine ih he' (by simp) (Nat.not_lt.1 hfits) ?_ o
      simp only [List.length_append, List.length_cons] at hfuel
      omega

/-- **What a sum of plain terms is read as**: its seconds, if they fit. -/
theorem read_of_plainSum {text : List Char} {n : Nat} (h : PlainSum text n) (hne : text ≠ []) :
    read text =
      if maxUnsigned64 < n then .error .overflow else .ok (ofSeconds n) := by
  have hlong : text ≠ ['0'] := by
    cases h with
    | nil => exact absurd rfl hne
    | cons hds =>
      obtain ⟨c, cs, rfl⟩ := List.exists_cons_of_ne_nil hds.1
      intro h
      simpa using congrArg List.length h
  have hterms : terms (text.length + 1) true (ofSeconds 0) 0 ([] ++ text) =
      if maxUnsigned64 < 0 + n then .error .overflow else .ok (ofSeconds (0 + n)) :=
    terms_of_plainSum h Text.blanks_nil (fun _ => hne) (Nat.zero_le _) (Nat.lt_succ_self _) 0
  rw [Nat.zero_add] at hterms
  rw [read, if_neg hlong, ← hterms]
  rfl

/-- **What a whole number of a plain unit is read as**, also with blanks before the unit. -/
theorem read_plain {ds b : List Char} {n : Nat} {u : Char} {unit : TimeUnit}
    (hds : IsDecimal ds n) (hu : (u, unit) ∈ plainUnits) (hb : Blanks b) :
    read (ds ++ (b ++ [u])) =
      if maxUnsigned64 < n * unit.seconds then .error .overflow
      else .ok (ofSeconds (n * unit.seconds)) :=
  read_of_plainSum (.cons hds hb hu Text.blanks_nil .nil) (by simp)

/-- A number of seconds is read. -/
theorem read_seconds {ds b : List Char} {n : Nat} (hds : IsDecimal ds n) (hn : n ≤ maxUnsigned64)
    (hb : Blanks b) : read (ds ++ (b ++ ['s'])) = .ok (ofSeconds n) := by
  have hseconds : n * TimeUnit.second.seconds = n := Nat.mul_one n
  rw [read_plain hds (by decide : ('s', TimeUnit.second) ∈ plainUnits) hb, hseconds,
    if_neg (Nat.not_lt.2 hn)]

/-! ## The characters of lengths of time

A text that is read at all has only digits, letters, points and blanks, whatever the reader makes
of it. So none of the characters that a query is divided by stands in it. -/

/-- The characters that occur in lengths of time. -/
def isTimeChar (c : Char) : Bool :=
  (Integer.digit? c).isSome || isBlank c || isUnitLetter c || c == '.'

/-- Whether what stands before the rest of a text are characters of lengths of time. -/
def Reads (text rest : List Char) : Prop :=
  ∃ pre, text = pre ++ rest ∧ ∀ c ∈ pre, isTimeChar c = true

namespace Reads

variable {c : Char} {cs text rest : List Char}

theorem refl (text : List Char) : Reads text text := ⟨[], rfl, by simp⟩

theorem cons (hc : isTimeChar c = true) (h : Reads cs rest) : Reads (c :: cs) rest := by
  obtain ⟨pre, rfl, hpre⟩ := h
  exact ⟨c :: pre, rfl, List.forall_mem_cons.2 ⟨hc, hpre⟩⟩

/-- Reading on from where a reader stopped. -/
theorem trans {text' : List Char} (h : Reads text text') (h' : Reads text' rest) :
    Reads text rest := by
  obtain ⟨pre, rfl, hpre⟩ := h
  obtain ⟨pre', rfl, hpre'⟩ := h'
  exact ⟨pre ++ pre', (List.append_assoc _ _ _).symm, List.forall_mem_append.2 ⟨hpre, hpre'⟩⟩

/-- What is left is no longer than what there was. -/
theorem length_le (h : Reads text rest) : rest.length ≤ text.length := by
  obtain ⟨pre, rfl, -⟩ := h
  simp

end Reads

section Characters

variable {c : Char}

theorem isTimeChar_of_digit? {d : Nat} (h : Integer.digit? c = some d) : isTimeChar c = true := by
  simp [isTimeChar, h]

theorem isTimeChar_of_isBlank (h : isBlank c = true) : isTimeChar c = true := by
  simp [isTimeChar, h]

theorem isTimeChar_of_isUnitLetter (h : isUnitLetter c = true) : isTimeChar c = true := by
  simp [isTimeChar, h]

end Characters

/-- What remains behind the whole digits. -/
def Behind.rest : Behind → List Char
  | .unit _ rest => rest
  | .point _ rest => rest

/-- Looking for a first digit reads blanks and the digit, or all of the text. -/
theorem reads_of_firstDigit {start offset : Nat} {cs : List Char}
    {found : Option (Nat × Nat × List Char)} (h : firstDigit start offset cs = .ok found) :
    (found = none ∧ Reads cs []) ∨
      ∃ d o rest, found = some (d, o, rest) ∧ Reads cs rest ∧ rest.length < cs.length := by
  induction cs generalizing offset with
  | nil =>
    cases h
    exact .inl ⟨rfl, .refl []⟩
  | cons c cs ih =>
    rw [firstDigit] at h
    split at h
    next d hd =>
      cases h
      exact .inr ⟨d, _, cs, rfl, .cons (isTimeChar_of_digit? hd) (.refl cs), Nat.lt_succ_self _⟩
    next =>
      split at h
      next hblank =>
        have hc := isTimeChar_of_isBlank hblank
        rcases ih h with ⟨hnone, hreads⟩ | ⟨d, o, rest, hsome, hreads, hlt⟩
        · exact .inl ⟨hnone, .cons hc hreads⟩
        · exact .inr ⟨d, o, rest, hsome, .cons hc hreads, Nat.lt_succ_of_lt hlt⟩
      next => cases h

/-- Reading a whole number reads characters of a time only. -/
theorem reads_of_whole {number offset n : Nat} {cs : List Char} {behind : Behind}
    (h : whole number offset cs = .ok (n, behind)) : Reads cs behind.rest := by
  induction cs generalizing number offset with
  | nil =>
    cases h
    exact .refl []
  | cons c cs ih =>
    rw [whole] at h
    split at h
    next d hd =>
      split at h
      · cases h
      · exact .cons (isTimeChar_of_digit? hd) (ih h)
    next =>
      split at h
      next hblank => exact .cons (isTimeChar_of_isBlank hblank) (ih h)
      next =>
        split at h
        · cases h
          exact .refl _
        · split at h
          next hpoint =>
            cases h
            exact .cons (by simp [isTimeChar, hpoint]) (.refl cs)
          next => cases h

theorem reads_of_fractionDigits {numerator denominator fault offset o : Nat} {cs rest : List Char}
    {f : Fraction} (h : fractionDigits numerator denominator fault offset cs = .ok (f, o, rest)) :
    Reads cs rest := by
  have hfinish {numerator denominator fault : Nat} {cs : List Char}
      (h : fractionDigits.finish numerator denominator fault cs = .ok (f, o, rest)) :
      rest = cs := by
    rw [fractionDigits.finish] at h
    split at h
    · cases h
    · cases h
      rfl
  -- every character is read as a digit or a blank until the unit ends the number
  induction cs generalizing numerator denominator fault offset with
  | nil =>
    rw [fractionDigits] at h
    rw [hfinish h]
    exact .refl []
  | cons c cs ih =>
    rw [fractionDigits] at h
    split at h
    next d hd =>
      split at h
      · cases h
      · exact .cons (isTimeChar_of_digit? hd) (ih h)
    next =>
      split at h
      next hblank => exact .cons (isTimeChar_of_isBlank hblank) (ih h)
      next =>
        split at h
        · rw [hfinish h]
          exact .refl _
        · cases h

/-- Reading the name of a unit reads letters only. -/
theorem reads_of_unitName {offset o : Nat} {cs name rest : List Char}
    (h : unitName offset cs = .ok (name, o, rest)) : Reads cs rest := by
  induction cs generalizing offset name with
  | nil =>
    cases h
    exact .refl []
  | cons c cs ih =>
    rw [unitName] at h
    split at h
    next hletter =>
      obtain ⟨⟨tail, o, rest⟩, hname, hresult⟩ := Fallible.bind_eq_ok h
      cases hresult
      exact .cons (isTimeChar_of_isUnitLetter hletter) (ih hname)
    next =>
      split at h
      · cases h
        exact .refl _
      · split at h
        next hblank =>
          cases h
          exact .cons (isTimeChar_of_isBlank hblank) (.refl _)
        next => cases h

/-- Reading a fraction reads characters of a time only, if there is one. -/
theorem reads_of_fraction {behind : Behind} {fraction : Option Fraction} {o : Nat}
    {rest : List Char} (h : behind.fraction = .ok (fraction, o, rest)) :
    Reads behind.rest rest := by
  cases behind with
  | unit offset letters =>
    cases h
    exact .refl _
  | point offset letters =>
    obtain ⟨⟨f, o, rest⟩, hdigits, hresult⟩ := Fallible.bind_eq_ok h
    cases hresult
    exact reads_of_fractionDigits hdigits

/-- A term consists of such characters, of its first digit at least. -/
theorem Term.reads {sum sum' : Duration} {offset offset' : Nat} {cs rest : List Char}
    (h : Term sum offset cs sum' offset' rest) : Reads cs rest ∧ rest.length < cs.length := by
  obtain ⟨hfirst, hwhole, hfraction, hname, -⟩ := h
  obtain ⟨hnone, -⟩ | ⟨digit, o, digits, hsome, hreads, hlt⟩ := reads_of_firstDigit hfirst
  · cases hnone
  · cases hsome
    have hterm := (reads_of_whole hwhole).trans
      ((reads_of_fraction hfraction).trans (reads_of_unitName hname))
    exact ⟨hreads.trans hterm, Nat.lt_of_le_of_lt hterm.length_le hlt⟩

/-- Terms consist of such characters, as long as the fuel lasts for the text. -/
theorem reads_of_terms {fuel : Nat} {first : Bool} {sum d : Duration} {offset : Nat}
    {cs : List Char} (hfuel : cs.length < fuel) (h : terms fuel first sum offset cs = .ok d) :
    Reads cs [] := by
  induction fuel generalizing first sum offset cs with
  | zero => exact absurd hfuel (Nat.not_lt_zero _)
  | succ fuel ih =>
    obtain ⟨hfirst, -, -⟩ | ⟨sum', offset', rest, hterm, hrest⟩ := terms_eq_ok_iff.1 h
    · obtain ⟨-, hreads⟩ | ⟨digit, o, digits, hsome, -⟩ := reads_of_firstDigit hfirst
      · exact hreads
      · cases hsome
    · obtain ⟨hreads, hlt⟩ := hterm.reads
      exact hreads.trans (ih (by omega) hrest)

/-- **Lengths of time consist of digits, blanks, points and letters of units.** -/
theorem isTimeChar_of_read {text : List Char} {d : Duration} (h : read text = .ok d) :
    ∀ c ∈ text, isTimeChar c = true := by
  rw [read] at h
  split at h
  next hzero =>
    rw [hzero, List.forall_mem_singleton]
    rfl
  next =>
    obtain ⟨pre, hpre, hall⟩ := reads_of_terms (Nat.lt_succ_self _) h
    rwa [hpre, List.append_nil]

end Telemetry.Time.Duration
