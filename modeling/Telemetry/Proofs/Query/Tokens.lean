import Telemetry.Proofs.Query.Scanning
import Telemetry.Proofs.Text.Spacing
import Telemetry.Query.Parser

/-!
The tokens of queries, and what the scanner sees of texts that are made of them.

A token is a word of letters and digits, a sign, or a value in quotes. Of a word the scanner sees
all characters, of a value in quotes none, and blanks are no signs. So a sign is seen in a text
exactly where it is a token of it, whatever the values hold, and a text is cut there.
-/

set_option autoImplicit false

namespace Telemetry.Query

open Quoted (isQuote Balanced Closed Hides visible)
open Text (Blanks Solid Spaced trim isBlank)

/-! ## The characters of names -/

/-- The characters that occur in names. -/
def isNameChar (c : Char) : Bool := isLetter c || isDigit c || c == '_' || c == ':' || c == '.'

/-- A name of a label is also a name of a metric. -/
theorem isMetricName_of_isLabelName {text : List Char} (h : isLabelName text = true) :
    isMetricName text = true := by
  cases text with
  | nil => exact h
  | cons c cs =>
    simp only [isLabelName, isMetricName, Bool.and_eq_true, Bool.or_eq_true,
      List.all_eq_true] at h ⊢
    refine ⟨.inl h.1, fun d hd => ?_⟩
    rcases h.2 d hd with ((h | h) | h) | h <;> simp [h]

/-- A name is made of characters of names. -/
theorem isNameChar_of_mem {text : List Char} (h : isMetricName text = true) {c : Char}
    (hc : c ∈ text) : isNameChar c = true := by
  cases text with
  | nil => cases hc
  | cons d ds =>
    simp only [isMetricName, Bool.and_eq_true, Bool.or_eq_true, List.all_eq_true] at h
    simp only [isNameChar, Bool.or_eq_true]
    rcases List.mem_cons.1 hc with rfl | hc
    · rcases h.1 with (h | h) | h <;> simp [h]
    · exact h.2 c hc

theorem ne_nil_of_isMetricName {text : List Char} (h : isMetricName text = true) : text ≠ [] := by
  rintro rfl
  cases h

/-- Characters of names are no others. -/
theorem ne_of_isNameChar {c d : Char} (hc : isNameChar c = true) (hd : isNameChar d = false) :
    c ≠ d := by
  rintro rfl
  rw [hc] at hd
  cases hd

theorem isQuote_of_isNameChar {c : Char} (hc : isNameChar c = true) : isQuote c = false := by
  rw [isQuote, Bool.or_eq_false_iff, beq_eq_false_iff_ne, beq_eq_false_iff_ne]
  exact ⟨ne_of_isNameChar hc (by decide), ne_of_isNameChar hc (by decide)⟩

/-- A character of a name is no blank. -/
theorem isBlank_of_isNameChar {c : Char} (hc : isNameChar c = true) : isBlank c = false := by
  have hle (a b : Char) : a ≤ b ↔ a.toNat ≤ b.toNat := Iff.rfl
  have hval (a : Char) : c = a ↔ c.toNat = a.toNat := Char.toNat_inj.symm
  -- both classes are ranges of code points, and these do not meet
  simp only [isNameChar, isLetter, isDigit, Bool.or_eq_true, Bool.and_eq_true, beq_iff_eq,
    decide_eq_true_eq, hle, hval, Char.reduceToNat] at hc
  simp only [isBlank, Bool.or_eq_false_iff, Bool.and_eq_false_iff, beq_eq_false_iff_ne,
    decide_eq_false_iff_not]
  omega

theorem not_mem_of_isMetricName {text : List Char} (h : isMetricName text = true) {d : Char}
    (hd : isNameChar d = false) : d ∉ text :=
  fun hmem => ne_of_isNameChar (isNameChar_of_mem h hmem) hd rfl

/-! ## Values in quotes

A value is written with a backslash before each backslash and each quote of its kind. The scanner
goes past it, and the reader gives it back. -/

/-- A character as it stands in quotes `q`. -/
def escape (q c : Char) : List Char := if c = '\\' ∨ c = q then ['\\', c] else [c]

/-- A value in quotes `q`. -/
def quoted (q : Char) (value : List Char) : List Char := q :: (value.flatMap (escape q) ++ [q])

/-- After an escaped character a scanner is still inside of the quotes. -/
theorem run_escape (q c : Char) :
    (Quoted.State.inside q).run (escape q c) = .inside q := by
  by_cases hc : c = '\\' ∨ c = q
  · simp [escape, hc, Quoted.State.next]
  · rw [not_or] at hc
    simp [escape, hc, Quoted.State.next]

theorem run_flatMap_escape (q : Char) (value : List Char) :
    (Quoted.State.inside q).run (value.flatMap (escape q)) = .inside q := by
  induction value with
  | nil => rfl
  | cons c cs ih => rw [List.flatMap_cons, Quoted.State.run_append, run_escape, ih]

theorem visible_inside_escape (q c : Char) :
    visible (.inside q) (escape q c) = [] := by
  rw [escape]
  split <;> simp [visible, Quoted.State.reports, Quoted.State.next]

theorem visible_flatMap_escape (q : Char) (value : List Char) :
    visible (.inside q) (value.flatMap (escape q)) = [] := by
  induction value with
  | nil => rfl
  | cons c cs ih =>
    rw [List.flatMap_cons, Quoted.visible_append, visible_inside_escape, run_escape, ih]
    rfl

theorem ne_backslash_of_isQuote {q : Char} (h : isQuote q = true) : q ≠ '\\' := by
  rintro rfl
  cases h

/-- Behind a value in quotes the scanner is outside again. -/
theorem closed_quoted {q : Char} (hq : isQuote q = true) (value : List Char) :
    Closed (quoted q value) := by
  have hopen : Quoted.State.outside.next q = .inside q := by rw [Quoted.State.next, if_pos hq]
  have hclose : (Quoted.State.inside q).next q = .outside := by
    rw [Quoted.State.next, if_neg (ne_backslash_of_isQuote hq), if_pos rfl]
  rw [Closed, quoted, Quoted.State.run_cons, hopen, Quoted.State.run_append, run_flatMap_escape,
    Quoted.State.run_cons, hclose, Quoted.State.run_nil]

/-- A value in quotes shows nothing. -/
theorem visible_quoted {q : Char} (hq : isQuote q = true) (value : List Char) :
    visible .outside (quoted q value) = [] := by
  have hopen : Quoted.State.outside.next q = .inside q := by rw [Quoted.State.next, if_pos hq]
  have hreports : ¬ Quoted.State.outside.reports q = true := by simp [Quoted.State.reports, hq]
  rw [quoted, visible, if_neg hreports, hopen, Quoted.visible_append, visible_flatMap_escape,
    run_flatMap_escape]
  rfl

/-- What is escaped stands for itself. -/
theorem unescape_eq_self {q c : Char} (hq : isQuote q = true) (hc : c = '\\' ∨ c = q) :
    unescape c = c := by
  rcases hc with rfl | rfl
  · rfl
  · rw [isQuote, Bool.or_eq_true, beq_iff_eq, beq_iff_eq] at hq
    rcases hq with rfl | rfl <;> rfl

/-- An escaped value is read back as it was. -/
theorem unquoteInner_flatMap_escape {q : Char} (hq : isQuote q = true) (whole value : List Char) :
    unquoteInner q whole (value.flatMap (escape q)) = .ok value := by
  -- on the value; a character that needs no escape is neither the quote nor a backslash
  induction value with
  | nil => rfl
  | cons c cs ih =>
    by_cases hc : c = '\\' ∨ c = q
    · rw [List.flatMap_cons, escape, if_pos hc, List.cons_append, List.singleton_append,
        unquoteInner, ih, unescape_eq_self hq hc]
      rfl
    · rw [not_or] at hc
      -- neither an escape nor the closing quote, so the character stands for itself
      have hstep : unquoteInner q whole (c :: cs.flatMap (escape q)) =
          if c = q then fault .quoteNotEscaped whole
          else (unquoteInner q whole (cs.flatMap (escape q))).map (c :: ·) := by
        rw [unquoteInner]
        exact hc.1
      rw [List.flatMap_cons, escape, if_neg (not_or.2 hc), List.singleton_append, hstep,
        if_neg hc.2, ih]
      rfl

/-- The value in quotes is read back. -/
theorem unquote_quoted {q : Char} (hq : isQuote q = true) (value : List Char) :
    unquote (quoted q value) = .ok value := by
  have hlast : (value.flatMap (escape q) ++ [q]).getLast? = some q := List.getLast?_concat
  rw [quoted, unquote, if_pos (by simp [hq, hlast]), List.dropLast_concat,
    unquoteInner_flatMap_escape hq]

/-! ## Tokens -/

/-- The signs of the language. -/
def signs : List Char := ['=', ',', '{', '}', '[', ']', '(', ')']

/-- The signs of selectors, which are all of them but the parentheses. -/
def selectorSigns : List Char := ['=', ',', '{', '}', '[', ']']

/-- Whether a text is a token, where some of the signs are expected. -/
inductive IsToken (expected : List Char) : List Char → Prop
  | word {t : List Char} (hne : t ≠ []) (h : ∀ c ∈ t, isNameChar c = true) : IsToken expected t
  | sign {c : Char} (hc : c ∈ expected) (hsign : c ∈ signs) : IsToken expected [c]
  | value {q : Char} (hq : isQuote q = true) (value : List Char) :
    IsToken expected (quoted q value)

/-- A sign is neither a character of names nor a blank nor a quote. -/
theorem of_mem_signs {c : Char} (h : c ∈ signs) :
    isNameChar c = false ∧ isBlank c = false ∧ isQuote c = false := by
  have hall : signs.all (fun c => !isNameChar c && !isBlank c && !isQuote c) = true := by decide
  simpa [and_assoc] using List.all_eq_true.1 hall c h

/-- A blank is no quote. -/
theorem isQuote_of_isBlank {c : Char} (h : isBlank c = true) : isQuote c = false := by
  by_contra hquote
  rw [Bool.not_eq_false, isQuote, Bool.or_eq_true, beq_iff_eq, beq_iff_eq] at hquote
  rcases hquote with rfl | rfl <;> cases h

theorem IsToken.of_isMetricName {expected text : List Char} (h : isMetricName text = true) :
    IsToken expected text :=
  .word (ne_nil_of_isMetricName h) fun _ hc => isNameChar_of_mem h hc

theorem IsToken.of_isLabelName {expected text : List Char} (h : isLabelName text = true) :
    IsToken expected text :=
  .of_isMetricName (isMetricName_of_isLabelName h)

theorem isToken_singleton {expected text : List Char} (h : isLabelName text = true) :
    ∀ t ∈ [text], IsToken expected t := by
  simpa using .of_isLabelName h

theorem IsToken.mono {expected expected' t : List Char} (h : IsToken expected t)
    (hsub : expected ⊆ expected') : IsToken expected' t := by
  cases h with
  | word hne h => exact .word hne h
  | sign hc hsign => exact .sign (hsub hc) hsign
  | value hq value => exact .value hq value

/-- A quoted value is solid: it begins and ends with its quotes, and is over at the last of them.
-/
theorem solid_quoted {q : Char} (hq : isQuote q = true) (value : List Char) :
    Solid (quoted q value) where
  ne_nil := List.cons_ne_nil _ _
  head c hc := by
    rw [quoted, List.head?_cons, Option.mem_some_iff] at hc
    by_contra hblank
    rw [Bool.not_eq_false] at hblank
    rw [← hc] at hblank
    rw [isQuote_of_isBlank hblank] at hq
    cases hq
  last c hc := by
    rw [quoted, ← List.cons_append, List.getLast?_concat, Option.mem_some_iff] at hc
    by_contra hblank
    rw [Bool.not_eq_false] at hblank
    rw [← hc] at hblank
    rw [isQuote_of_isBlank hblank] at hq
    cases hq

theorem solid_sign {c : Char} (h : c ∈ signs) : Solid [c] :=
  .of_forall (List.cons_ne_nil _ _) (by simpa using (of_mem_signs h).2.1)

/-- Blanks are trimmed around a token, and none of it. -/
theorem IsToken.solid {expected t : List Char} (h : IsToken expected t) : Solid t := by
  cases h with
  | word hne h => exact .of_forall hne fun c hc => isBlank_of_isNameChar (h c hc)
  | sign _ hsign => exact solid_sign hsign
  | value hq value => exact solid_quoted hq value

theorem solid_of_isMetricName {text : List Char} (h : isMetricName text = true) : Solid text :=
  (IsToken.of_isMetricName h : IsToken [] text).solid

theorem solid_of_isLabelName {text : List Char} (h : isLabelName text = true) : Solid text :=
  solid_of_isMetricName (isMetricName_of_isLabelName h)

/-- A token shows no sign but an expected one. -/
theorem IsToken.hides {expected t : List Char} (h : IsToken expected t) {d : Char}
    (hd : d ∈ signs) (hnot : d ∉ expected) : Hides d t := by
  cases h with
  | word _ h =>
    exact Quoted.hides_of_no_quote (fun c hc => isQuote_of_isNameChar (h c hc)) fun hmem =>
      ne_of_isNameChar (h d hmem) (of_mem_signs hd).1 rfl
  | @sign c hc hsign =>
    refine Quoted.hides_of_no_quote (by simpa using (of_mem_signs hsign).2.2) fun hmem => ?_
    exact hnot (List.mem_singleton.1 hmem ▸ hc)
  | value hq value => exact ⟨closed_quoted hq value, by simp [visible_quoted hq value]⟩

/-- No token leaves a quote open. -/
theorem IsToken.closed {expected t : List Char} (h : IsToken expected t) : Closed t := by
  cases h with
  | word _ h => exact Quoted.closed_of_no_quote fun c hc => isQuote_of_isNameChar (h c hc)
  | sign _ hsign => exact .cons (of_mem_signs hsign).2.2 Quoted.closed_nil
  | value hq value => exact closed_quoted hq value

/-- What holds of the separator and of all that it separates holds of the whole list. -/
theorem forall_mem_intercalate {p : List Char → Prop} {separator : List Char}
    {tss : List (List (List Char))} (hseparator : p separator) (h : ∀ ts ∈ tss, ∀ t ∈ ts, p t) :
    ∀ t ∈ [separator].intercalate tss, p t := by
  induction tss with
  | nil => simp
  | cons ts tss ih =>
    obtain ⟨hts, htss⟩ := List.forall_mem_cons.1 h
    rcases tss with _ | ⟨us, tss⟩
    · simpa using hts
    · rw [List.intercalate_cons_cons, List.append_assoc, List.singleton_append]
      exact List.forall_mem_append.2 ⟨hts, List.forall_mem_cons.2 ⟨hseparator, ih htss⟩⟩

/-! ## Texts of tokens

A text is tokens with blanks around them. What the scanner reports of it are the tokens that are
not values, so the search for a character is a search among these. -/

section Spaced

variable {ts us : List (List Char)} {text expected : List Char} {d : Char}

theorem solid_of_tokens (hts : ∀ t ∈ ts, IsToken expected t) : ∀ t ∈ ts, Solid t :=
  fun t ht => (hts t ht).solid

/-- A text with a token is more than blanks. -/
theorem trim_ne_nil_of_spaced (h : Spaced ts text) (hts : ∀ t ∈ ts, IsToken expected t)
    (hne : ts ≠ []) : trim text ≠ [] := by
  obtain ⟨t, ts, rfl⟩ := List.exists_cons_of_ne_nil hne
  exact (h.trim (solid_of_tokens hts)).ne_nil (hts t List.mem_cons_self).solid.ne_nil

/-- A text of tokens leaves no quote open. -/
theorem closed_of_spaced (h : Spaced ts text) (hts : ∀ t ∈ ts, IsToken expected t) :
    Closed text := by
  induction h with
  | nil hb => exact Quoted.closed_of_no_quote fun c hc => isQuote_of_isBlank (hb c hc)
  | cons hb _ ih =>
    obtain ⟨ht, hts⟩ := List.forall_mem_cons.1 hts
    exact (Quoted.closed_of_no_quote fun c hc => isQuote_of_isBlank (hb c hc)).append
      (ht.closed.append (ih hts))

/-- A text of tokens shows no sign but the expected ones. -/
theorem hides_of_spaced (h : Spaced ts text) (hts : ∀ t ∈ ts, IsToken expected t)
    (hd : d ∈ signs) (hnot : d ∉ expected) : Hides d text := by
  have hblanks {b : List Char} (hb : Blanks b) : Hides d b := by
    refine Quoted.hides_of_no_quote (fun c hc => isQuote_of_isBlank (hb c hc)) fun hmem => ?_
    have hblank := hb d hmem
    rw [(of_mem_signs hd).2.1] at hblank
    cases hblank
  induction h with
  | nil hb => exact hblanks hb
  | cons hb _ ih =>
    obtain ⟨ht, hts⟩ := List.forall_mem_cons.1 hts
    exact (hblanks hb).append ((ht.hides hd hnot).append (ih hts))

/-- Where there is no parenthesis, there is none to balance. -/
theorem balanced_of_spaced (h : Spaced ts text) (hts : ∀ t ∈ ts, IsToken selectorSigns t) :
    Balanced text :=
  Quoted.balanced_of_hides (hides_of_spaced h hts (by decide) (by decide))
    (hides_of_spaced h hts (by decide) (by decide))

/-- A sign that is not expected in any part is seen in none. -/
theorem hides_of_forall₂ {tss : List (List (List Char))} {parts : List (List Char)}
    (h : List.Forall₂ Spaced tss parts) (htss : ∀ ts ∈ tss, ∀ t ∈ ts, IsToken expected t)
    (hd : d ∈ signs) (hnot : d ∉ expected) : ∀ part ∈ parts, Hides d part := by
  induction h with
  | nil => simp
  | cons hpart _ ih =>
    obtain ⟨hts, htss⟩ := List.forall_mem_cons.1 htss
    exact List.forall_mem_cons.2 ⟨hides_of_spaced hpart hts hd hnot, ih htss⟩

/-- A text of tokens is cut at a sign, which the part before it hides. -/
theorem exists_cut (ts : List (List Char)) (h : Spaced (ts ++ [d] :: us) text)
    (hts : ∀ t ∈ ts, IsToken expected t) (hd : d ∈ signs) (hnot : d ∉ expected) :
    ∃ a b, text = a ++ d :: b ∧ Hides d a ∧ Spaced ts a ∧ Spaced us b := by
  obtain ⟨a, b, rfl, ha, hb⟩ := h.exists_cons ts
  exact ⟨a, b, rfl, hides_of_spaced ha hts hd hnot, ha, hb⟩

end Spaced

end Telemetry.Query
