import Telemetry.Proofs.Query.Fragments
import Telemetry.Proofs.Query.Tokens
import Telemetry.Proofs.Time.Duration

/-!
What a text that is read as a selector looks like.

The lemmas here go back from a result of the reader to the text it was read from: to its name, to
what stands between its braces, and to what stands between its brackets. Only between the braces
there may be quotes and parentheses; all other characters are plain ones (`rangeSelector_shape`).
The first brace that opens and the first that closes behind it are therefore those of the selector,
and they tell where it ends. So no selector goes on behind another one with a parenthesis
(`rangeSelector_ne_ok_of_append`).
-/

set_option autoImplicit false

namespace Telemetry.Query

open Fallible
open Quoted (isQuote Closed Hides)
open Text (Blanks trim isBlank)
open Time (Duration)

/-! ## Plain characters

Names, numbers and blanks have no character that means anything to the scanner. A text of such
characters is closed, and none of the characters looked for is in it. -/

/-- The characters of which selectors consist outside of their braces. -/
def isPlain (c : Char) : Bool :=
  isBlank c || isNameChar c || c == '[' || c == ']' || c == 'µ'

/-- Whether a text consists of plain characters. -/
def Plain (text : List Char) : Prop := ∀ c ∈ text, isPlain c = true

section Plain

variable {c : Char} {text a b : List Char}

theorem isPlain_of_isNameChar (h : isNameChar c = true) : isPlain c = true := by
  simp [isPlain, h]

theorem isPlain_of_isBlank (h : isBlank c = true) : isPlain c = true := by
  simp [isPlain, h]

/-- A plain character is no quote. -/
theorem isQuote_of_isPlain (h : isPlain c = true) : isQuote c = false := by
  by_contra hquote
  rw [Bool.not_eq_false, isQuote, Bool.or_eq_true, beq_iff_eq, beq_iff_eq] at hquote
  rcases hquote with rfl | rfl <;> exact absurd h (by decide)

theorem plain_nil : Plain [] := fun _ hc => absurd hc List.not_mem_nil

theorem Plain.append (ha : Plain a) (hb : Plain b) : Plain (a ++ b) :=
  List.forall_mem_append.2 ⟨ha, hb⟩

theorem Plain.closed (h : Plain text) : Closed text :=
  Quoted.closed_of_no_quote fun c hc => isQuote_of_isPlain (h c hc)

/-- A plain text shows all of its characters, and has no others. -/
theorem Plain.not_mem (h : Plain text) {d : Char} (hd : isPlain d = false) : d ∉ text := by
  intro hmem
  rw [h d hmem] at hd
  cases hd

theorem Plain.hides (h : Plain text) {d : Char} (hd : isPlain d = false) : Hides d text :=
  Quoted.hides_of_no_quote (fun c hc => isQuote_of_isPlain (h c hc)) (h.not_mem hd)

theorem Plain.of_blanks (h : Blanks text) : Plain text :=
  fun c hc => isPlain_of_isBlank (h c hc)

theorem Plain.of_isMetricName (h : isMetricName text = true) : Plain text :=
  fun _ hc => isPlain_of_isNameChar (isNameChar_of_mem h hc)

/-- The blanks around a text are plain. -/
theorem Plain.of_trim (h : Plain (trim text)) : Plain text := by
  intro c hc
  rcases Text.isBlank_or_mem_trim hc with hblank | hmem
  · exact isPlain_of_isBlank hblank
  · exact h c hmem

end Plain

/-! ## Durations -/

/-- What has a value as a digit is a digit. -/
theorem isDigit_of_digit? {c : Char} (h : (Text.Integer.digit? c).isSome = true) :
    isDigit c = true := by
  rw [Text.Integer.digit?] at h
  rw [isDigit]
  split at h
  next hdigit => exact hdigit
  next => cases h

/-- A character of a length of time is plain. -/
theorem isPlain_of_isTimeChar {c : Char} (h : Duration.isTimeChar c = true) : isPlain c = true := by
  simp only [Duration.isTimeChar, Duration.isUnitLetter, Bool.or_eq_true] at h
  simp only [isPlain, isNameChar, isLetter, Bool.or_eq_true]
  rcases h with ((hdigit | hblank) | (hletter | hmicro)) | hpoint
  · simp [isDigit_of_digit? hdigit]
  · simp [hblank]
  · simp only [Bool.and_eq_true, decide_eq_true_eq] at hletter
    simp [hletter]
  · simp [hmicro]
  · simp [hpoint]

/-- Digits with a unit behind them. -/
theorem plain_of_plainDuration? {text : List Char} {seconds : Nat}
    (h : plainDuration? text = some (some seconds)) : Plain text := by
  rw [plainDuration?] at h
  -- the text is digits and the letter of a unit, and all of these are plain
  cases hlast : text.getLast? with
  | none => simp [hlast] at h
  | some unit =>
    obtain ⟨digits, rfl⟩ := List.getLast?_eq_some_iff.1 hlast
    simp only [hlast, List.dropLast_concat] at h
    cases hunit : plainUnit? unit with
    | none => simp [hunit] at h
    | some n =>
      have hunitPlain : isPlain unit = true := by
        unfold plainUnit? at hunit
        split at hunit
        all_goals first | rfl | cases hunit
      simp only [hunit] at h
      split at h
      · cases h
      next hdigits =>
        rw [Bool.or_eq_true, not_or, Bool.not_eq_true, Bool.not_eq_true', Bool.not_eq_false,
          List.all_eq_true] at hdigits
        intro c hc
        rcases List.mem_append.1 hc with hc | hc
        · exact isPlain_of_isNameChar (by simp [isNameChar, hdigits.2 c hc])
        · rw [List.mem_singleton.1 hc]
          exact hunitPlain

/-- A length of time that can be read is plain. -/
theorem plain_of_duration {text : List Char} {d : Duration} (h : duration text = .ok d) :
    Plain text := by
  apply Plain.of_trim
  rw [duration] at h
  split at h
  · cases h
  · split at h
    next hplain => exact plain_of_plainDuration? hplain
    next => cases h
    next =>
      split at h
      next hread => exact fun c hc => isPlain_of_isTimeChar (Duration.isTimeChar_of_read hread c hc)
      next => cases h
      next => cases h

/-! ## Selectors

From a result back to the text: whatever has been read as a selector has the parts that the
grammar gives it. -/

/-- A selector is taken apart at its braces, or has none. -/
theorem of_selectorParts_eq_ok {text name : List Char} {body : Option (List Char)}
    (h : selectorParts text = .ok (name, body)) :
    (name = text ∧ body = none) ∨
      ∃ a b, text = a ++ '{' :: (b ++ ['}']) ∧ Hides '{' a ∧ Hides '}' b ∧ name = trim a ∧
        body = some b := by
  rw [selectorParts] at h
  -- without a brace the name is all of the text; with one, the next that closes has to be its end
  cases hopen : Quoted.find? '{' text with
  | none =>
    simp only [hopen] at h
    split at h
    · cases h
    · cases h
      exact .inl ⟨rfl, rfl⟩
  | some opening =>
    obtain ⟨a, behind, rfl, ha, rfl⟩ := Quoted.exists_append_of_find? hopen
    have hdrop : (a ++ '{' :: behind).drop (a.length + 1) = behind := by
      simp [List.drop_append]
    have htake : (a ++ '{' :: behind).take a.length = a := by simp
    simp only [hopen, hdrop, htake] at h
    cases hclose : Quoted.find? '}' behind with
    | none =>
      rw [hclose] at h
      cases h
    | some close =>
      obtain ⟨b, rest, rfl, hb, rfl⟩ := Quoted.exists_append_of_find? hclose
      have hrest : (b ++ '}' :: rest).drop (b.length + 1) = rest := by simp [List.drop_append]
      have hbody : (b ++ '}' :: rest).take b.length = b := by simp
      simp only [hclose, hrest, hbody] at h
      cases rest with
      | nil =>
        cases h
        exact .inr ⟨a, b, rfl, ha, hb, rfl, rfl⟩
      | cons c rest => cases h

/-- What is read as a selector is a name, perhaps with labels in braces. -/
theorem of_selector_eq_ok {text : List Char} {q : Query} (h : selector text = .ok q) :
    ∃ name labels, q = { metric := String.ofList name, labels } ∧ isMetricName name = true ∧
      ((trim text = name ∧ labels = Dictionary.empty) ∨
        ∃ a body, trim text = a ++ '{' :: (body ++ ['}']) ∧ Hides '{' a ∧ Hides '}' body ∧
          trim a = name ∧ constraints body = .ok labels) := by
  rw [selector] at h
  obtain ⟨⟨name, body⟩, hparts, h⟩ := bind_eq_ok h
  rcases of_selectorParts_eq_ok hparts with ⟨rfl, rfl⟩ | ⟨a, b, htext, ha, hb, rfl, rfl⟩
  · simp only [pure_bind, fault_bind, ite_fault_eq_ok_iff, Bool.not_eq_true', Bool.not_eq_false]
      at h
    obtain ⟨-, hname, hq⟩ := h
    exact ⟨_, _, (Except.ok.inj hq).symm, hname, .inl ⟨rfl, rfl⟩⟩
  · obtain ⟨labels, hlabels, h⟩ := bind_eq_ok h
    simp only [fault_bind, ite_fault_eq_ok_iff, Bool.not_eq_true', Bool.not_eq_false] at h
    obtain ⟨-, hname, hq⟩ := h
    exact ⟨_, labels, (Except.ok.inj hq).symm, hname, .inr ⟨a, b, htext, ha, hb, rfl, hlabels⟩⟩

/-- A selector with a range behind it is taken apart at its brackets, or has none. -/
theorem of_rangeSelector_eq_ok {text : List Char} {q : Query} (h : rangeSelector text = .ok q) :
    selector (trim text) = .ok q ∨
      ∃ a inner range query, trim text = a ++ '[' :: (inner ++ [']']) ∧
        duration inner = .ok range ∧ 0 < range.nanos ∧ selector a = .ok query ∧
        q = { query with range := some range } := by
  rw [rangeSelector] at h
  by_cases hlast : (trim text).getLast? = some ']'
  · right
    simp only [if_pos hlast] at h
    cases hopen : Quoted.findLast? '[' (trim text) with
    | none =>
      rw [hopen] at h
      cases h
    | some opening =>
      obtain ⟨a, behind, htext, -, rfl, -⟩ := Quoted.exists_append_of_findLast? hopen
      -- the bracket that closes is the last character, so it stands behind the one that opens
      obtain ⟨inner, rfl⟩ : ∃ inner, behind = inner ++ [']'] := by
        rw [htext, List.getLast?_append, List.getLast?_cons] at hlast
        rcases List.eq_nil_or_concat' behind with rfl | ⟨inner, c, rfl⟩
        · cases hlast
        · rw [List.getLast?_concat] at hlast
          obtain rfl : c = ']' := by simpa using hlast
          exact ⟨inner, rfl⟩
      have hinner : ((trim text).drop (a.length + 1)).dropLast = inner := by
        simp [htext, List.drop_append]
      have htake : (trim text).take a.length = a := by simp [htext]
      simp only [hopen, hinner, htake] at h
      obtain ⟨range, hrange, h⟩ := bind_eq_ok h
      simp only [fault_bind, ite_fault_eq_ok_iff] at h
      obtain ⟨hpos, h⟩ := h
      obtain ⟨query, hquery, hq⟩ := bind_eq_ok h
      exact ⟨a, inner, range, query, htext, hrange, Nat.pos_of_ne_zero hpos, hquery,
        (Except.ok.inj hq).symm⟩
  · left
    simp only [if_neg hlast] at h
    split at h
    · cases h
    · exact h

/-! ## The shape of a selector

A selector is plain text, and perhaps braces with plain text around them. It is all that is needed
to see where a parenthesis in it can stand. -/

/-- Whether a text is plain outside of one pair of braces, which are the first one that opens and
the first one that closes behind it. -/
def Braced (text : List Char) : Prop :=
  ∃ a body b, text = a ++ '{' :: (body ++ '}' :: b) ∧ Plain a ∧ Hides '}' body ∧ Plain b

/-- Blanks around a selector with braces do not matter. -/
theorem Braced.of_trim {text : List Char} (h : Braced (trim text)) : Braced text := by
  obtain ⟨a, body, b, htext, ha, hbody, hb⟩ := h
  obtain ⟨s, e, hs, he, hcut⟩ := Text.exists_trim text
  refine ⟨s ++ a, body, b ++ e, ?_, (Plain.of_blanks hs).append ha, hbody,
    hb.append (Plain.of_blanks he)⟩
  rw [hcut, htext]
  simp

/-- A selector that can be read is plain, or ends with its braces. -/
theorem selector_shape {text : List Char} {q : Query} (h : selector text = .ok q) :
    Plain text ∨ Braced text := by
  obtain ⟨name, labels, -, hname, ⟨htrim, -⟩ | ⟨a, body, htext, -, hbody, ha, -⟩⟩ :=
    of_selector_eq_ok h
  · refine .inl (Plain.of_trim ?_)
    rw [htrim]
    exact .of_isMetricName hname
  · refine .inr (Braced.of_trim ⟨a, body, [], htext, Plain.of_trim ?_, hbody, plain_nil⟩)
    rw [ha]
    exact .of_isMetricName hname

/-- **A selector is plain outside of its braces**, with or without a range. -/
theorem rangeSelector_shape {text : List Char} {q : Query} (h : rangeSelector text = .ok q) :
    Plain text ∨ Braced text := by
  rcases of_rangeSelector_eq_ok h with h | ⟨a, inner, range, query, htext, hrange, -, h, -⟩
  · exact (selector_shape h).imp Plain.of_trim Braced.of_trim
  · have hbehind : Plain ('[' :: (inner ++ [']'])) := by
      have hinner := plain_of_duration hrange
      exact List.forall_mem_cons.2 ⟨rfl, hinner.append (by simp [Plain, isPlain])⟩
    rcases selector_shape h with ha | ⟨c, body, d, rfl, hc, hbody, hd⟩
    · refine .inl (Plain.of_trim ?_)
      rw [htext]
      exact ha.append hbehind
    · refine .inr (Braced.of_trim ⟨c, body, d ++ '[' :: (inner ++ [']']), ?_, hc, hbody,
        hd.append hbehind⟩)
      rw [htext]
      simp

/-- A range selector that can be read leaves no quote open. -/
theorem closed_of_rangeSelector {text : List Char} {q : Query} (h : rangeSelector text = .ok q) :
    Closed text := by
  rcases rangeSelector_shape h with hplain | ⟨a, body, b, rfl, ha, hbody, hb⟩
  · exact hplain.closed
  · exact ha.closed.append (.cons rfl (hbody.closed.append (.cons rfl hb.closed)))

/-- What stands before a character that hides it on both sides is the same. -/
theorem eq_of_append_cons {target : Char} (htarget : isQuote target = false)
    {a a' b b' : List Char} (ha : Hides target a) (ha' : Hides target a')
    (h : a ++ target :: b = a' ++ target :: b') : a = a' ∧ b = b' := by
  have hfind := Quoted.find?_append_cons ha htarget b
  rw [h, Quoted.find?_append_cons ha' htarget b'] at hfind
  obtain ⟨rfl, hrest⟩ := List.append_inj h (Option.some.inj hfind).symm
  exact ⟨rfl, (List.cons.inj hrest).2⟩

/-- **No selector goes on behind another one with a closing parenthesis.** -/
theorem rangeSelector_ne_ok_of_append {a b : List Char} {q : Query}
    (ha : rangeSelector a = .ok q) (q' : Query) : rangeSelector (a ++ ')' :: b) ≠ .ok q' := by
  intro hab
  have hmem : ')' ∈ a ++ ')' :: b := by simp
  -- the parenthesis is plain text in neither, so it would have to stand inside of braces
  rcases rangeSelector_shape hab with hplain | ⟨c, body, d, hcut, hc, hbody, hd⟩
  · exact hplain.not_mem (by decide) hmem
  have hopen : Hides '{' c := hc.hides (by decide)
  rcases rangeSelector_shape ha with hplain | ⟨c', body', d', rfl, hc', hbody', hd'⟩
  · -- the brace cannot stand in the first text, so the parenthesis stands before it
    rcases List.append_eq_append_iff.1 hcut with ⟨e, rfl, he⟩ | ⟨e, rfl, he⟩
    · cases e with
      | nil => cases he
      | cons p e =>
        obtain ⟨rfl, -⟩ := List.cons.inj he
        exact hc.not_mem (by decide : isPlain ')' = false) (by simp)
    · cases e with
      | nil => cases he
      | cons p e =>
        obtain ⟨rfl, -⟩ := List.cons.inj he
        exact hplain.not_mem (by decide : isPlain '{' = false) (by simp)
  · -- both texts have their braces at the same places, so the parenthesis is behind them
    have hopen' : Hides '{' c' := hc'.hides (by decide)
    have hsame : c' ++ '{' :: (body' ++ '}' :: (d' ++ ')' :: b)) =
        c ++ '{' :: (body ++ '}' :: d) := by
      rw [← hcut]
      simp
    obtain ⟨rfl, hrest⟩ := eq_of_append_cons rfl hopen' hopen hsame
    obtain ⟨rfl, rfl⟩ := eq_of_append_cons rfl hbody' hbody hrest
    exact hd.not_mem (by decide : isPlain ')' = false) (by simp)

end Telemetry.Query
