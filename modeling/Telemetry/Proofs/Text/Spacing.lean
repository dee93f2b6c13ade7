import Mathlib.Data.List.Forall2
import Mathlib.Data.List.TakeWhile
import Telemetry.Text.Blank

/-!
Texts that are made of tokens with blanks between them.

`Spaced ts text` says that a text is the tokens `ts` one after another, with any blanks before,
between and behind them. A reader takes such a text apart by cutting it at a token and trimming the
parts. What it gets are again spaced texts, of the tokens before and behind the cut, so a reader can
be followed from the whole text down to the single tokens without saying where the blanks are.
-/

set_option autoImplicit false

namespace Telemetry.Text

/-! ## Trimming -/

/-- A text of blanks. -/
def Blanks (text : List Char) : Prop := ∀ c ∈ text, isBlank c = true

instance (text : List Char) : Decidable (Blanks text) :=
  decidable_of_iff (text.all isBlank = true) List.all_eq_true

/-- A text that keeps its own when blanks are trimmed around it. -/
structure Solid (text : List Char) : Prop where
  ne_nil : text ≠ []
  head : ∀ c ∈ text.head?, isBlank c = false
  last : ∀ c ∈ text.getLast?, isBlank c = false

theorem blanks_nil : Blanks [] := fun _ hc => absurd hc List.not_mem_nil

theorem Blanks.append {a b : List Char} (ha : Blanks a) (hb : Blanks b) : Blanks (a ++ b) :=
  fun c hc => (List.mem_append.1 hc).elim (ha c) (hb c)

theorem Blanks.reverse {b : List Char} (hb : Blanks b) : Blanks b.reverse :=
  fun c hc => hb c (List.mem_reverse.1 hc)

/-- What neither begins nor ends with a blank does not do so backwards. -/
theorem Solid.reverse {t : List Char} (h : Solid t) : Solid t.reverse where
  ne_nil := by simpa using h.ne_nil
  head := by simpa using h.last
  last := by simpa using h.head

/-- What follows a text that is kept only has to end as one does. -/
theorem Solid.append {t u : List Char} (ht : Solid t) (hne : u ≠ [])
    (hu : ∀ c ∈ u.getLast?, isBlank c = false) : Solid (t ++ u) where
  ne_nil := by simp [hne]
  head c hc := by
    obtain ⟨d, ds, rfl⟩ := List.exists_cons_of_ne_nil ht.ne_nil
    exact ht.head c hc
  last c hc := by
    rw [List.getLast?_append_of_ne_nil _ hne] at hc
    exact hu c hc

/-- A text none of whose characters is blank. -/
theorem Solid.of_forall {t : List Char} (hne : t ≠ []) (h : ∀ c ∈ t, isBlank c = false) :
    Solid t where
  ne_nil := hne
  head c hc := h c (List.mem_of_mem_head? hc)
  last c hc := h c (List.mem_of_mem_getLast? hc)

/-- Between blanks is where trimming stops. -/
theorem trimStart_append {b t : List Char} (hb : Blanks b) (ht : Solid t) (rest : List Char) :
    trimStart (b ++ (t ++ rest)) = t ++ rest := by
  obtain ⟨c, cs, rfl⟩ := List.exists_cons_of_ne_nil ht.ne_nil
  have hc : ¬ isBlank c = true := by simp [ht.head c rfl]
  rw [trimStart, List.dropWhile_append_of_pos hb, List.cons_append,
    List.dropWhile_cons_of_neg hc]

theorem trimEnd_append {t b : List Char} (ht : Solid t) (hb : Blanks b) (a : List Char) :
    trimEnd (a ++ (t ++ b)) = a ++ t := by
  have hstart := trimStart_append hb.reverse ht.reverse a.reverse
  rw [trimStart] at hstart
  rw [trimEnd]
  simp only [List.reverse_append, List.append_assoc, hstart, List.reverse_reverse]

theorem trim_of_blanks {b : List Char} (hb : Blanks b) : trim b = [] := by
  rw [trim, trimStart, List.dropWhile_eq_nil_iff.2 hb]
  rfl

/-- What is trimmed around a text is blanks. -/
theorem trim_append {b t e : List Char} (hb : Blanks b) (ht : Solid t) (he : Blanks e) :
    trim (b ++ (t ++ e)) = t := by
  rw [trim, trimStart_append hb ht, ← List.nil_append (t ++ e), trimEnd_append ht he,
    List.nil_append]

/-- What is left does not begin with a blank. -/
theorem head_trimStart (text : List Char) : ∀ c ∈ (trimStart text).head?, isBlank c = false := by
  intro c hc
  have hhead := List.head?_dropWhile_not isBlank text
  rw [Option.mem_def, trimStart] at hc
  rw [hc] at hhead
  exact hhead

theorem last_trimEnd (text : List Char) : ∀ c ∈ (trimEnd text).getLast?, isBlank c = false := by
  rw [trimEnd, List.getLast?_reverse]
  exact head_trimStart text.reverse

theorem exists_trimStart (text : List Char) : ∃ b, Blanks b ∧ text = b ++ trimStart text :=
  ⟨text.takeWhile isBlank, fun _ hc => List.mem_takeWhile_imp hc,
    List.takeWhile_append_dropWhile.symm⟩

/-- What was taken off behind are blanks. -/
theorem exists_trimEnd (text : List Char) : ∃ e, Blanks e ∧ text = trimEnd text ++ e := by
  obtain ⟨b, hb, hcut⟩ := exists_trimStart text.reverse
  refine ⟨b.reverse, hb.reverse, ?_⟩
  rw [trimEnd, ← trimStart, ← List.reverse_append, ← hcut, List.reverse_reverse]

/-- A text that is kept stays as it is. -/
theorem Solid.trim_eq {t : List Char} (h : Solid t) : trim t = t := by
  have happend := trim_append blanks_nil h blanks_nil
  rwa [List.nil_append, List.append_nil] at happend

/-- Around a trimmed text there are blanks. -/
theorem exists_trim (text : List Char) :
    ∃ b e, Blanks b ∧ Blanks e ∧ text = b ++ (trim text ++ e) := by
  obtain ⟨b, hb, hstart⟩ := exists_trimStart text
  obtain ⟨e, he, hend⟩ := exists_trimEnd (trimStart text)
  exact ⟨b, e, hb, he, by rw [trim, ← hend, ← hstart]⟩

/-- What is left is a piece of the text. -/
theorem trim_infix (text : List Char) : trim text <:+: text := by
  obtain ⟨b, e, -, -, hcut⟩ := exists_trim text
  exact ⟨b, e, by rw [List.append_assoc, ← hcut]⟩

/-- Each character is a blank or one that trimming keeps. -/
theorem isBlank_or_mem_trim {text : List Char} {c : Char} (hc : c ∈ text) :
    isBlank c = true ∨ c ∈ trim text := by
  obtain ⟨b, e, hb, he, hcut⟩ := exists_trim text
  rw [hcut] at hc
  rcases List.mem_append.1 hc with hc | hc
  · exact .inl (hb c hc)
  · rcases List.mem_append.1 hc with hc | hc
    · exact .inr hc
    · exact .inl (he c hc)

/-- If nothing is left, there were blanks only. -/
theorem blanks_of_trim_eq_nil {text : List Char} (h : trim text = []) : Blanks text := by
  intro c hc
  rcases isBlank_or_mem_trim hc with hblank | hmem
  · exact hblank
  · rw [h] at hmem
    cases hmem

/-- Nothing is left to trim around a trimmed text. -/
theorem solid_trim {text : List Char} (h : trim text ≠ []) : Solid (trim text) where
  ne_nil := h
  head c hc := by
    obtain ⟨e, -, hcut⟩ := exists_trimEnd (trimStart text)
    rw [← trim] at hcut
    obtain ⟨d, ds, hd⟩ := List.exists_cons_of_ne_nil h
    refine head_trimStart text c ?_
    rw [hcut, hd]
    rwa [hd] at hc
  last := last_trimEnd (trimStart text)

/-- Blanks at the end are trimmed whatever stands before. -/
theorem trim_append_blanks {e : List Char} (he : Blanks e) (text : List Char) :
    trim (text ++ e) = trim text := by
  obtain ⟨b, e', hb, he', hcut⟩ := exists_trim text
  by_cases h : trim text = []
  · rw [h, trim_of_blanks ((blanks_of_trim_eq_nil h).append he)]
  · have happend := trim_append hb (solid_trim h) (he'.append he)
    rwa [← List.append_assoc, ← List.append_assoc, List.append_assoc b, ← hcut] at happend

@[simp] theorem trim_trim (text : List Char) : trim (trim text) = trim text := by
  by_cases h : trim text = []
  · rw [h]
    rfl
  · exact (solid_trim h).trim_eq

/-! ## Tokens and blanks -/

/-- Tokens, with any blanks before, between and behind them. -/
inductive Spaced : List (List Char) → List Char → Prop
  | nil {b : List Char} (hb : Blanks b) : Spaced [] b
  | cons {b t : List Char} {ts : List (List Char)} {rest : List Char} (hb : Blanks b)
      (h : Spaced ts rest) : Spaced (t :: ts) (b ++ (t ++ rest))

namespace Spaced

variable {t u : List Char} {ts us : List (List Char)} {text : List Char}

theorem blanks (h : Spaced [] text) : Blanks text := by
  cases h with
  | nil hb => exact hb

theorem ne_nil (h : Spaced (t :: ts) text) (ht : t ≠ []) : text ≠ [] := by
  cases h with
  | cons => simp [ht]

/-- Tokens laid out with given blanks before each and at the end. -/
theorem layout (ps : List (List Char × List Char)) (e : List Char) (hps : ∀ p ∈ ps, Blanks p.1)
    (he : Blanks e) : Spaced (ps.map (·.2)) (ps.flatMap (fun p => p.1 ++ p.2) ++ e) := by
  induction ps with
  | nil => exact .nil he
  | cons p ps ih =>
    have hrest := ih fun p' hp' => hps p' (List.mem_cons_of_mem _ hp')
    rw [List.map_cons, List.flatMap_cons, List.append_assoc, List.append_assoc]
    exact .cons (hps p List.mem_cons_self) hrest

/-- Tokens with nothing between them. -/
theorem flatten (ts : List (List Char)) : Spaced ts ts.flatten := by
  induction ts with
  | nil => exact .nil blanks_nil
  | cons t ts ih => exact .cons (b := []) blanks_nil ih

/-- Blanks behind a text of tokens do not matter. -/
theorem append_blanks {e : List Char} (h : Spaced ts text) (he : Blanks e) :
    Spaced ts (text ++ e) := by
  induction h with
  | nil hb => exact .nil (hb.append he)
  | cons hb _ ih =>
    rw [List.append_assoc, List.append_assoc]
    exact .cons hb ih

theorem blanks_append {b : List Char} (hb : Blanks b) (h : Spaced ts text) :
    Spaced ts (b ++ text) := by
  cases h with
  | nil hc => exact .nil (hb.append hc)
  | cons hc h =>
    rw [← List.append_assoc]
    exact .cons (hb.append hc) h

/-- Two texts of tokens are one of both. -/
theorem append {a b : List Char} (ha : Spaced ts a) (hb : Spaced us b) :
    Spaced (ts ++ us) (a ++ b) := by
  induction ha with
  | nil hc => exact hb.blanks_append hc
  | cons hc _ ih =>
    rw [List.append_assoc, List.append_assoc]
    exact .cons hc ih

/-- A text is cut before any of its tokens. -/
theorem exists_append (ts : List (List Char)) (h : Spaced (ts ++ us) text) :
    ∃ a b, text = a ++ b ∧ Spaced ts a ∧ Spaced us b := by
  induction ts generalizing text with
  | nil => exact ⟨[], text, rfl, .nil blanks_nil, h⟩
  | cons t ts ih =>
    cases h with
    | @cons b _ _ rest hb hrest =>
      obtain ⟨a, c, rfl, ha, hc⟩ := ih hrest
      exact ⟨b ++ (t ++ a), c, by simp, .cons hb ha, hc⟩

/-- A text is cut around any of its tokens. -/
theorem exists_cons (ts : List (List Char)) (h : Spaced (ts ++ t :: us) text) :
    ∃ a b, text = a ++ (t ++ b) ∧ Spaced ts a ∧ Spaced us b := by
  obtain ⟨a, c, rfl, ha, hc⟩ := h.exists_append ts
  cases hc with
  | @cons b _ _ rest hb hrest => exact ⟨a ++ b, rest, by simp, ha.append_blanks hb, hrest⟩

/-- Each character is a blank or one of a token. -/
theorem isBlank_or_mem (h : Spaced ts text) {c : Char} (hc : c ∈ text) :
    isBlank c = true ∨ ∃ t ∈ ts, c ∈ t := by
  induction h with
  | nil hb => exact .inl (hb c hc)
  | cons hb _ ih =>
    rcases List.mem_append.1 hc with hc | hc
    · exact .inl (hb c hc)
    · rcases List.mem_append.1 hc with hc | hc
      · exact .inr ⟨_, List.mem_cons_self, hc⟩
      · exact (ih hc).imp id fun ⟨t, ht, hct⟩ => ⟨t, List.mem_cons_of_mem _ ht, hct⟩

/-! ## Trimming such a text -/

theorem trimStart_cons (h : Spaced (t :: ts) text) (ht : Solid t) :
    ∃ rest, trimStart text = t ++ rest ∧ Spaced ts rest := by
  cases h with
  | @cons b _ _ rest hb hrest => exact ⟨rest, trimStart_append hb ht rest, hrest⟩

theorem trim_single (h : Spaced [t] text) (ht : Solid t) : trim text = t := by
  cases h with
  | cons hb he => exact trim_append hb ht he.blanks

/-- Trimming leaves the first and the last token, and what is between them. -/
theorem trim_cons_concat (ts : List (List Char)) (h : Spaced (t :: (ts ++ [u])) text)
    (ht : Solid t) (hu : Solid u) :
    ∃ m, trim text = t ++ (m ++ u) ∧ Spaced ts m := by
  obtain ⟨rest, htrim, hrest⟩ := h.trimStart_cons ht
  obtain ⟨m, e, rfl, hm, he⟩ := hrest.exists_cons ts
  refine ⟨m, ?_, hm⟩
  have hend := trimEnd_append hu he.blanks (t ++ m)
  rw [trim, htrim, ← List.append_assoc, hend, List.append_assoc]

/-- Behind trimming the last token is what the text ends with. -/
theorem trim_concat (ts : List (List Char)) (h : Spaced (ts ++ [u]) text)
    (hts : ∀ t ∈ ts, Solid t) (hu : Solid u) :
    ∃ a, trim text = a ++ u ∧ Spaced ts a := by
  cases ts with
  | nil => exact ⟨[], h.trim_single hu, .nil blanks_nil⟩
  | cons t ts =>
    obtain ⟨m, htrim, hm⟩ := h.trim_cons_concat ts (hts t List.mem_cons_self) hu
    exact ⟨t ++ m, by rw [htrim, List.append_assoc], .cons (b := []) blanks_nil hm⟩

/-- The first token is what it starts with. -/
theorem trim_cons (h : Spaced (t :: ts) text) (hts : ∀ u ∈ t :: ts, Solid u) :
    ∃ rest, trim text = t ++ rest ∧ Spaced ts rest := by
  have ht := hts t List.mem_cons_self
  rcases List.eq_nil_or_concat ts with rfl | ⟨us, u, rfl⟩
  · exact ⟨[], by rw [h.trim_single ht, List.append_nil], .nil blanks_nil⟩
  · rw [List.concat_eq_append] at h hts ⊢
    obtain ⟨m, htrim, hm⟩ := h.trim_cons_concat us ht (hts u (by simp))
    exact ⟨m ++ u, htrim, hm.append (by simpa using flatten [u])⟩

/-- A trimmed text has the same tokens. -/
theorem trim (h : Spaced ts text) (hts : ∀ t ∈ ts, Solid t) : Spaced ts (trim text) := by
  cases ts with
  | nil =>
    rw [trim_of_blanks h.blanks]
    exact .nil blanks_nil
  | cons t ts =>
    obtain ⟨rest, htrim, hrest⟩ := h.trim_cons hts
    rw [htrim]
    exact .cons (b := []) blanks_nil hrest

/-! ## Lists of tokens with separators -/

/-- A text in which a separator stands between groups of tokens is joined from texts of the
groups. -/
theorem exists_intercalate {d : Char} {tss : List (List (List Char))} (hne : tss ≠ [])
    (h : Spaced ([[d]].intercalate tss) text) :
    ∃ parts, text = [d].intercalate parts ∧ List.Forall₂ Spaced tss parts := by
  induction tss generalizing text with
  | nil => exact absurd rfl hne
  | cons ts tss ih =>
    rcases tss with _ | ⟨us, tss⟩
    · rw [List.intercalate_singleton] at h
      exact ⟨[text], by rw [List.intercalate_singleton], .cons h .nil⟩
    · rw [List.intercalate_cons_cons, List.append_assoc, List.singleton_append] at h
      obtain ⟨a, b, rfl, ha, hb⟩ := h.exists_cons ts
      obtain ⟨parts, rfl, hparts⟩ := ih (List.cons_ne_nil _ _) hb
      obtain ⟨part, parts, rfl⟩ : ∃ p ps, parts = p :: ps := by
        cases hparts with
        | cons _ _ => exact ⟨_, _, rfl⟩
      refine ⟨a :: part :: parts, ?_, .cons ha hparts⟩
      rw [List.intercalate_cons_cons, List.append_assoc]

end Spaced

end Telemetry.Text
