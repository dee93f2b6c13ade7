import Telemetry.Proofs.Time.Duration

/-!
Blanks around lengths of time.

The reader skips blanks before each number, and behind the last unit there is nothing to tell them
from the end of the text. So a text is read just as it is read without the blanks around it
(`read_eq_ok_iff_trim`), except for a zero without a unit, which is a text of its own.

The stages of the reader are followed on two texts that differ in the blanks at their ends
(`Alike`). What one stage leaves of them differs only in such blanks again. Their offsets play no
part, since they show only in faults.
-/

set_option autoImplicit false

namespace Telemetry.Time.Duration

open Telemetry.Text

/-! ## Texts that differ in the blanks at their ends -/

/-- Whether two texts are equal up to the blanks at their ends. -/
inductive Alike : List Char → List Char → Prop
  | blanks {e e' : List Char} (he : Blanks e) (he' : Blanks e') : Alike e e'
  | cons (c : Char) {cs cs' : List Char} (h : Alike cs cs') : Alike (c :: cs) (c :: cs')

/-- Texts that differ in the blanks behind them are alike. -/
theorem Alike.append {e e' : List Char} (he : Blanks e) (he' : Blanks e') (text : List Char) :
    Alike (text ++ e) (text ++ e') := by
  induction text with
  | nil => exact .blanks he he'
  | cons c cs ih => exact .cons c ih

/-- What follows the whole digits of a number, up to blanks at the end. -/
inductive Behind.Alike : Behind → Behind → Prop
  | unit {o o' : Nat} {cs cs' : List Char} (h : Duration.Alike cs cs') :
    Behind.Alike (.unit o cs) (.unit o' cs')
  | point {o o' : Nat} {cs cs' : List Char} (h : Duration.Alike cs cs') :
    Behind.Alike (.point o cs) (.point o' cs')

/-! ## The stages of a term -/

section Stages

variable {cs cs' : List Char}

/-- In blanks there is no first digit. -/
theorem firstDigit_of_blanks {e : List Char} (he : Blanks e) (start offset : Nat) :
    firstDigit start offset e = .ok none := by
  obtain ⟨o, hskip⟩ := firstDigit_blanks he start offset []
  rw [List.append_nil] at hskip
  rw [hskip, firstDigit]

/-- Looking for a first digit has the same outcome on texts that are alike. -/
theorem Alike.firstDigit (h : Alike cs cs') {start o : Nat}
    {found : Option (Nat × Nat × List Char)} (hread : firstDigit start o cs = .ok found)
    (start' o' : Nat) :
    (found = none ∧ Duration.firstDigit start' o' cs' = .ok none) ∨
      ∃ d p p' rest rest', found = some (d, p, rest) ∧ Alike rest rest' ∧
        Duration.firstDigit start' o' cs' = .ok (some (d, p', rest')) := by
  induction h generalizing o o' with
  | blanks he he' =>
    rw [firstDigit_of_blanks he] at hread
    cases hread
    exact .inl ⟨rfl, firstDigit_of_blanks he' start' o'⟩
  | cons c h ih =>
    rw [Duration.firstDigit] at hread ⊢
    cases hdigit : Integer.digit? c with
    | some d =>
      rw [hdigit] at hread
      cases hread
      exact .inr ⟨d, _, _, _, _, rfl, h, rfl⟩
    | none =>
      simp only [hdigit] at hread ⊢
      split at hread
      next hblank =>
        rw [if_pos hblank]
        exact ih hread _
      next => cases hread

/-- So has reading a whole number. -/
theorem Alike.whole (h : Alike cs cs') {number o n : Nat} {behind : Behind}
    (hread : whole number o cs = .ok (n, behind)) (o' : Nat) :
    ∃ behind', Duration.whole number o' cs' = .ok (n, behind') ∧ behind.Alike behind' := by
  induction h generalizing number o o' with
  | @blanks e e' he he' =>
    obtain ⟨p, hskip⟩ := whole_blanks he number o []
    obtain ⟨p', hskip'⟩ := whole_blanks he' number o' []
    rw [List.append_nil] at hskip hskip'
    rw [hskip] at hread
    cases hread
    exact ⟨.unit p' [], by rw [hskip', Duration.whole], .unit (.blanks blanks_nil blanks_nil)⟩
  | cons c h ih =>
    rw [Duration.whole] at hread ⊢
    -- the readers go on alike on the same digit, blank, letter or point, and only the blanks at
    -- the end differ
    cases hdigit : Integer.digit? c with
    | some d =>
      simp only [hdigit] at hread ⊢
      split at hread
      next => cases hread
      next hfits =>
        rw [if_neg hfits]
        exact ih hread _
    | none =>
      simp only [hdigit] at hread ⊢
      split at hread
      next hblank =>
        rw [if_pos hblank]
        exact ih hread _
      next hblank =>
        rw [if_neg hblank]
        split at hread
        next hletter =>
          cases hread
          rw [if_pos hletter]
          exact ⟨_, rfl, .unit (.cons c h)⟩
        next hletter =>
          rw [if_neg hletter]
          split at hread
          next hpoint =>
            cases hread
            rw [if_pos hpoint]
            exact ⟨_, rfl, .point h⟩
          next => cases hread

/-- A fraction ends with its digits, so it is the same up to the offset. -/
theorem Alike.finish {denominator numerator fault o : Nat} {f : Fraction} {rest : List Char}
    (h : Alike cs cs')
    (hread : fractionDigits.finish numerator denominator fault cs = .ok (f, o, rest))
    (fault' : Nat) :
    ∃ p rest', fractionDigits.finish numerator denominator fault' cs' = .ok (f, p, rest') ∧
      Alike rest rest' := by
  rw [fractionDigits.finish] at hread ⊢
  split at hread
  next => cases hread
  next hdigits =>
    cases hread
    rw [if_neg hdigits]
    exact ⟨fault', cs', rfl, h⟩

/-- Blanks behind the digits of a fraction are skipped. -/
theorem fractionDigits_blanks {e : List Char} (he : Blanks e)
    (numerator denominator fault offset : Nat) :
    ∃ fault', fractionDigits numerator denominator fault offset e =
      fractionDigits.finish numerator denominator fault' [] := by
  let stage (s : Nat × Nat) := fractionDigits numerator denominator s.1 s.2
  have hstep : ∀ s c cs, isBlank c = true → ∃ s', stage s (c :: cs) = stage s' cs := by
    intro s c cs hc
    show ∃ s', fractionDigits _ _ _ _ (c :: cs) = _
    rw [fractionDigits, digit?_of_isBlank hc]
    simp only [if_pos hc]
    exact ⟨(_, _), rfl⟩
  obtain ⟨s', hskip⟩ := exists_skip_blanks hstep he (fault, offset) []
  rw [List.append_nil] at hskip
  exact ⟨s'.1, hskip⟩

/-- And so has reading the digits of a fraction. -/
theorem Alike.fractionDigits (h : Alike cs cs') {numerator denominator fault offset o : Nat}
    {f : Fraction} {rest : List Char}
    (hread : fractionDigits numerator denominator fault offset cs = .ok (f, o, rest))
    (fault' offset' : Nat) :
    ∃ p rest', Duration.fractionDigits numerator denominator fault' offset' cs' =
      .ok (f, p, rest') ∧ Alike rest rest' := by
  induction h generalizing numerator denominator fault offset fault' offset' with
  | @blanks e e' he he' =>
    obtain ⟨q, hskip⟩ := fractionDigits_blanks he numerator denominator fault offset
    obtain ⟨q', hskip'⟩ := fractionDigits_blanks he' numerator denominator fault' offset'
    rw [hskip] at hread
    rw [hskip']
    exact (Alike.blanks blanks_nil blanks_nil).finish hread q'
  | cons c h ih =>
    rw [Duration.fractionDigits] at hread ⊢
    -- as in the whole number, the same character makes the same step of both
    cases hdigit : Integer.digit? c with
    | some d =>
      simp only [hdigit] at hread ⊢
      split at hread
      next => cases hread
      next hfits =>
        rw [if_neg hfits]
        exact ih hread _ _
    | none =>
      simp only [hdigit] at hread ⊢
      split at hread
      next hblank =>
        rw [if_pos hblank]
        exact ih hread _ _
      next hblank =>
        rw [if_neg hblank]
        split at hread
        next hletter =>
          rw [if_pos hletter]
          exact (Alike.cons c h).finish hread fault'
        next => cases hread

/-- What follows a whole number is a fraction of the same value. -/
theorem Behind.Alike.fraction {behind behind' : Behind} (h : behind.Alike behind')
    {fraction : Option Fraction} {o : Nat} {rest : List Char}
    (hread : behind.fraction = .ok (fraction, o, rest)) :
    ∃ p rest', behind'.fraction = .ok (fraction, p, rest') ∧ Duration.Alike rest rest' := by
  cases h with
  | @unit _ o' _ letters h =>
    cases hread
    exact ⟨o', letters, rfl, h⟩
  | @point _ o' _ digits h =>
    obtain ⟨⟨f, p, rest⟩, hdigits, hresult⟩ := Fallible.bind_eq_ok hread
    cases hresult
    obtain ⟨p', rest', hdigits', hrest⟩ := h.fractionDigits hdigits o' (o' + 1)
    refine ⟨p', rest', ?_, hrest⟩
    rw [Behind.fraction, hdigits']
    rfl

/-- The name of a unit is the same, and what follows it is alike. -/
theorem Alike.unitName (h : Alike cs cs') {offset o : Nat} {name rest : List Char}
    (hread : unitName offset cs = .ok (name, o, rest)) (offset' : Nat) :
    ∃ p rest', Duration.unitName offset' cs' = .ok (name, p, rest') ∧ Alike rest rest' := by
  induction h generalizing offset o name offset' with
  | @blanks e e' he he' =>
    -- one of the blanks may be read with the name, and those behind it are left
    have hend : ∀ c ∈ ([] : List Char).head?, c.isDigit = true := by simp
    obtain ⟨p, b, hb, hskip⟩ := unitName_of_blanks he hend offset
    obtain ⟨p', b', hb', hskip'⟩ := unitName_of_blanks he' hend offset'
    rw [List.append_nil, List.append_nil] at hskip hskip'
    rw [hskip] at hread
    cases hread
    exact ⟨p', b', hskip', .blanks hb hb'⟩
  | @cons c cs cs' h ih =>
    rw [Duration.unitName] at hread ⊢
    split at hread
    next hletter =>
      obtain ⟨⟨tail, p, rest⟩, hname, hresult⟩ := Fallible.bind_eq_ok hread
      cases hresult
      obtain ⟨p', rest', hname', hrest⟩ := ih hname (offset' + c.utf8Size)
      rw [if_pos hletter, hname']
      exact ⟨p', rest', rfl, hrest⟩
    next hletter =>
      rw [if_neg hletter]
      split at hread
      next hdigit =>
        cases hread
        rw [if_pos hdigit]
        exact ⟨_, _, rfl, .cons c h⟩
      next hdigit =>
        rw [if_neg hdigit]
        split at hread
        next hblank =>
          cases hread
          rw [if_pos hblank]
          exact ⟨_, _, rfl, h⟩
        next => cases hread

end Stages

/-! ## Terms -/

section Terms

variable {b b' cs cs' : List Char} {sum : Duration}

/-- A term is read from both texts, also behind blanks, and leaves both of them alike. -/
theorem Alike.term (h : Alike cs cs') (hb : Blanks b) (hb' : Blanks b') {offset o : Nat}
    {sum' : Duration} {rest : List Char} (hterm : Term sum offset (b ++ cs) sum' o rest)
    (offset' : Nat) :
    ∃ p rest', Term sum offset' (b' ++ cs') sum' p rest' ∧ Alike rest rest' := by
  obtain ⟨hfirst, hwhole, hfraction, hname, hadd⟩ := hterm
  obtain ⟨q, hskip⟩ := firstDigit_blanks hb offset offset cs
  obtain ⟨q', hskip'⟩ := firstDigit_blanks hb' offset' offset' cs'
  rw [hskip] at hfirst
  obtain ⟨hnone, -⟩ | ⟨d, r, r', digits, digits', hsome, hdigits, hfirst'⟩ :=
    h.firstDigit hfirst offset' q'
  · cases hnone
  · cases hsome
    obtain ⟨behind', hwhole', hbehind⟩ := hdigits.whole hwhole r'
    obtain ⟨s', letters', hfraction', hletters⟩ := hbehind.fraction hfraction
    obtain ⟨p, rest', hname', hrest⟩ := hletters.unitName hname s'
    exact ⟨p, rest', .intro (hskip'.trans hfirst') hwhole' hfraction' hname' hadd, hrest⟩

/-- The same terms are read from both texts, as long as the fuel lasts for each of them. -/
theorem Alike.terms (h : Alike cs cs') (hb : Blanks b) (hb' : Blanks b') {fuel fuel' : Nat}
    {first : Bool} {d : Duration} {offset : Nat} (hfuel : (b ++ cs).length < fuel)
    (hfuel' : (b' ++ cs').length < fuel')
    (hread : terms fuel first sum offset (b ++ cs) = .ok d) (offset' : Nat) :
    Duration.terms fuel' first sum offset' (b' ++ cs') = .ok d := by
  -- only the first number may have different blanks before it; behind a term both go on alike
  induction fuel generalizing fuel' first sum offset offset' b b' cs cs' with
  | zero => exact absurd hfuel (Nat.not_lt_zero _)
  | succ fuel ih =>
    obtain ⟨fuel', rfl⟩ : ∃ k, fuel' = k + 1 := ⟨fuel' - 1, by omega⟩
    rw [terms_eq_ok_iff] at hread ⊢
    obtain ⟨hfirst, hlater, hsum⟩ | ⟨sum', o, rest, hterm, hrest⟩ := hread
    · obtain ⟨q, hskip⟩ := firstDigit_blanks hb offset offset cs
      obtain ⟨q', hskip'⟩ := firstDigit_blanks hb' offset' offset' cs'
      rw [hskip] at hfirst
      obtain ⟨-, hnone⟩ | ⟨d, p, p', rest, rest', hsome, -⟩ := h.firstDigit hfirst offset' q'
      · exact .inl ⟨hskip'.trans hnone, hlater, hsum⟩
      · cases hsome
    · obtain ⟨p, rest', hterm', hrests⟩ := h.term hb hb' hterm offset'
      have hlt : rest.length < fuel := by
        have hshorter := hterm.reads.2
        omega
      have hlt' : rest'.length < fuel' := by
        have hshorter := hterm'.reads.2
        omega
      exact .inr ⟨sum', p, rest', hterm', ih hrests blanks_nil blanks_nil hlt hlt' hrest p⟩

end Terms

/-! ## Blanks around -/

/-- **Blanks around a length of time change nothing**, except that none may stand around a zero
without a unit. -/
theorem read_eq_ok_iff_trim {text : List Char} {d : Duration} :
    read text = .ok d ↔ read (trim text) = .ok d ∧ (trim text = ['0'] → text = ['0']) := by
  obtain ⟨b, e, hb, he, hcut⟩ := exists_trim text
  have hbare : trim ['0'] = ['0'] := by decide
  have halike : Alike (trim text ++ e) (trim text ++ []) := .append he blanks_nil _
  have halike' : Alike (trim text ++ []) (trim text ++ e) := .append blanks_nil he _
  by_cases htext : text = ['0']
  · rw [htext, hbare]
    simp
  · rw [read, if_neg htext]
    -- without the blanks around it, the text is read in the same way, and so is the text with
    -- them
    have hread (h : terms (text.length + 1) true ⟨0⟩ 0 text = .ok d) :
        terms ((trim text).length + 1) true ⟨0⟩ 0 (trim text) = .ok d := by
      rw [hcut] at h
      have hterms := halike.terms hb blanks_nil (Nat.lt_succ_self _) (Nat.lt_succ_self _) h 0
      simpa using hterms
    by_cases hzero : trim text = ['0']
    · -- as a term, the zero lacks its unit
      have hunit : terms 2 true ⟨0⟩ 0 ['0'] = .error (.unitNeeded 0) := by rfl
      rw [hzero] at hread
      refine ⟨fun h => ?_, fun h => absurd (h.2 hzero) htext⟩
      have hterms := hread h
      rw [List.length_singleton, hunit] at hterms
      cases hterms
    · rw [read, if_neg hzero]
      refine ⟨fun h => ⟨hread h, fun h => absurd h hzero⟩, fun h => ?_⟩
      have htrimmed : terms ((trim text ++ []).length + 1) true ⟨0⟩ 0 ([] ++ (trim text ++ [])) =
          .ok d := by
        simpa using h.1
      have hterms :=
        halike'.terms blanks_nil hb (Nat.lt_succ_self _) (Nat.lt_succ_self _) htrimmed 0
      rwa [← hcut] at hterms

end Telemetry.Time.Duration
