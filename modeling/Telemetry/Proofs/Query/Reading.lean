import Telemetry.Proofs.Dictionary
import Telemetry.Proofs.Fallible
import Telemetry.Proofs.Query.Durations
import Telemetry.Proofs.Query.Grammar

/-!
Labels, ranges, selectors and groupings are read back from any text with their tokens.

There is one lemma for each rule of the grammar. Its proof cuts the text where the reader does,
which leaves texts with the tokens of the smaller rules. Each cut is at a sign that the part before
it hides, because the tokens there are names, digits, values in quotes and other signs.
-/

set_option autoImplicit false

namespace Telemetry.Query

open Quoted (isQuote Hides)
open Text (Blanks Solid Spaced trim trimStart isBlank)
open Text.Integer (IsDecimal maxUnsigned64)
open Time (Duration)

/-! ## Labels -/

section Labels

variable {text : List Char}

theorem isToken_matcherTokens {q : Char} {e : String × String} (hq : isQuote q = true)
    (hname : isLabelName e.1.toList = true) : ∀ t ∈ matcherTokens q e, IsToken ['='] t := by
  simp only [matcherTokens, List.forall_mem_cons]
  exact ⟨.of_isLabelName hname, .sign (by decide) (by decide), .value hq _, by simp⟩

/-- A matcher constrains its label to its value. -/
theorem constraint_of_spaced {q : Char} {e : String × String} (hq : isQuote q = true)
    (hname : isLabelName e.1.toList = true) (h : Spaced (matcherTokens q e) text)
    {labels : Labels} (hnew : e.1 ∉ labels.keys) :
    constraint labels text = .ok (labels.insert e.1 e.2) := by
  have htokens := isToken_matcherTokens hq hname
  -- the equals sign is the first one outside of quotes, and the text is cut there
  have htrim := h.trim (solid_of_tokens htokens)
  have hnameToken : ∀ t ∈ [e.1.toList], IsToken [] t := isToken_singleton hname
  obtain ⟨key, raw, hcut, hhides, hkey, hraw⟩ :=
    exists_cut [e.1.toList] htrim hnameToken (by decide) List.not_mem_nil
  have hfind : Quoted.find? '=' (trim text) = some key.length := by
    rw [hcut, Quoted.find?_append_cons hhides rfl]
  have hkeyTrim : trim key = e.1.toList := hkey.trim_single (solid_of_isLabelName hname)
  have hrawTrim : trim raw = quoted q e.2.toList := hraw.trim_single (solid_quoted hq _)
  have hne : (trim text).isEmpty = false := by simp [hcut]
  have htake : (trim text).take key.length = key := by simp [hcut]
  have hdrop : (trim text).drop (key.length + 1) = raw := by simp [hcut, List.drop_append]
  -- nor is this one of the matchers that are not supported
  have hsupported : ¬ (e.1.toList.getLast? = some '!' ∨
      (quoted q e.2.toList).head? = some '~') := by
    rintro (hlast | hhead)
    · exact not_mem_of_isMetricName (isMetricName_of_isLabelName hname) (by decide)
        (List.mem_of_mem_getLast? hlast)
    · rw [quoted, List.head?_cons, Option.some.injEq] at hhead
      rw [hhead] at hq
      cases hq
  have hcontains : labels.contains e.1 = false := by
    rw [Bool.eq_false_iff, ne_eq, Dictionary.contains_iff]
    exact hnew
  simp only [constraint, hne, hfind, htake, hdrop, hkeyTrim, hrawTrim, if_neg hsupported, hname,
    unquote_quoted hq, hcontains, Bool.not_true, Bool.false_eq_true, if_false, bind, Except.bind,
    String.ofList_toList]
  rfl

/-- Constraints are added one by one. -/
theorem foldlM_constraint {ms : List (Char × (String × String))} {parts : List (List Char)}
    (hparts : List.Forall₂ Spaced (ms.map fun m => matcherTokens m.1 m.2) parts)
    (hquotes : ∀ m ∈ ms, isQuote m.1 = true) (hnames : ∀ m ∈ ms, isLabelName m.2.1.toList = true)
    (hnodup : (ms.map (·.2.1)).Nodup) {labels : Labels} (hnew : ∀ m ∈ ms, m.2.1 ∉ labels.keys) :
    parts.foldlM constraint labels =
      .ok ((ms.map (·.2)).foldl (fun d e => d.insert e.1 e.2) labels) := by
  -- on the constraints, for labels that have none of theirs yet
  induction ms generalizing parts labels with
  | nil =>
    cases hparts
    rfl
  | cons m ms ih =>
    cases hparts with
    | @cons _ part _ parts hpart hparts =>
    obtain ⟨hquote, hquotes⟩ := List.forall_mem_cons.1 hquotes
    obtain ⟨hname, hnames⟩ := List.forall_mem_cons.1 hnames
    obtain ⟨hfirst, hnodup⟩ := List.nodup_cons.1 hnodup
    obtain ⟨hnewFirst, hnew⟩ := List.forall_mem_cons.1 hnew
    rw [List.foldlM_cons, constraint_of_spaced hquote hname hpart hnewFirst, List.map_cons,
      List.foldl_cons]
    refine ih hparts hquotes hnames hnodup fun m' hm' => ?_
    have hne : m'.2.1 ≠ m.2.1 := fun heq => hfirst (List.mem_map.2 ⟨m', hm', heq⟩)
    -- the labels so far and the one just added
    rw [← Dictionary.contains_iff, Dictionary.contains, Dictionary.get?_insert, if_neg hne,
      ← Dictionary.contains, Dictionary.contains_iff]
    exact hnew m' hm'

/-- Blanks are the only piece of themselves, and that is left out. -/
theorem constraints_of_blanks (h : Blanks text) : constraints text = .ok Dictionary.empty := by
  have hhides : Hides ',' text :=
    hides_of_spaced (.nil h) (by simp) (by decide) List.not_mem_nil
  have hsplit : Quoted.split ',' ([','].intercalate [text]) = [text] :=
    Quoted.split_intercalate rfl (by simp) (by simpa using hhides)
  rw [List.intercalate_singleton] at hsplit
  rw [constraints, hsplit]
  simp [constraint, Text.trim_of_blanks h]
  rfl

/-- What stands between the braces is read back as the labels. -/
theorem constraints_of_spaced {labels : Labels} {ms : List (Char × (String × String))}
    (hquotes : ∀ m ∈ ms, isQuote m.1 = true) (hperm : (ms.map (·.2)).Perm labels.entries)
    (hlabels : ∀ k ∈ labels.keys, isLabelName k.toList = true)
    (h : Spaced (matchersTokens ms) text) : constraints text = .ok labels := by
  have hkeys : (ms.map (·.2.1)).Perm labels.keys := by
    have hmap := hperm.map (·.1)
    rwa [List.map_map] at hmap
  have hnames : ∀ m ∈ ms, isLabelName m.2.1.toList = true := fun m hm =>
    hlabels _ (hkeys.mem_iff.1 (List.mem_map_of_mem hm))
  -- in whatever order they stand, constraints make the labels that they are of
  have hresult : (ms.map (·.2)).foldl (fun d e => d.insert e.1 e.2) Dictionary.empty = labels :=
    Dictionary.ofList_of_perm hperm
  by_cases hempty : ms = []
  · subst hempty
    rw [constraints_of_blanks (Spaced.blanks h), ← hresult]
    rfl
  -- each piece between commas is a matcher, since neither a name nor a value shows a comma
  · obtain ⟨parts, rfl, hparts⟩ := h.exists_intercalate (by simpa using hempty)
    have htokens : ∀ ts ∈ ms.map fun m => matcherTokens m.1 m.2, ∀ t ∈ ts, IsToken ['='] t := by
      intro ts hts
      obtain ⟨m, hm, rfl⟩ := List.mem_map.1 hts
      exact isToken_matcherTokens (hquotes m hm) (hnames m hm)
    have hhides : ∀ part ∈ parts, Hides ',' part :=
      hides_of_forall₂ hparts htokens (by decide) (by decide)
    have hne : parts ≠ [] := by
      rintro rfl
      exact hempty (List.map_eq_nil_iff.1 (List.forall₂_nil_right_iff.1 hparts))
    rw [constraints, Quoted.split_intercalate rfl hne hhides,
      foldlM_constraint hparts hquotes hnames (hkeys.nodup_iff.2 labels.nodup_keys)
        (by simp [Dictionary.keys, Dictionary.empty]), hresult]

theorem isToken_matchersTokens {labels : Labels} {ms : List (Char × (String × String))}
    (hquotes : ∀ m ∈ ms, isQuote m.1 = true) (hperm : (ms.map (·.2)).Perm labels.entries)
    (hlabels : ∀ k ∈ labels.keys, isLabelName k.toList = true) :
    ∀ t ∈ matchersTokens ms, IsToken ['=', ','] t := by
  refine forall_mem_intercalate (.sign (by decide) (by decide)) fun ts hts t ht => ?_
  obtain ⟨m, hm, rfl⟩ := List.mem_map.1 hts
  have hname : m.2.1 ∈ labels.keys :=
    List.mem_map_of_mem (hperm.mem_iff.1 (List.mem_map_of_mem hm))
  exact (isToken_matcherTokens (hquotes m hm) (hlabels _ hname) t ht).mono (by simp)

theorem isToken_labelsTokens {labels : Labels} {ls : List (List Char)}
    (hls : LabelsTokens labels ls) (hlabels : ∀ k ∈ labels.keys, isLabelName k.toList = true) :
    ∀ t ∈ ls, IsToken ['=', ',', '{', '}'] t := by
  cases hls with
  | omitted => simp
  | braces ms hquotes hperm =>
    simp only [List.forall_mem_cons, List.forall_mem_append]
    exact ⟨.sign (by decide) (by decide),
      fun t ht => (isToken_matchersTokens hquotes hperm hlabels t ht).mono (by simp),
      .sign (by decide) (by decide), by simp⟩

end Labels

/-! ## Ranges -/

/-- A decimal text is a word. -/
theorem isToken_of_isDecimal {expected ds : List Char} {n : Nat} (h : IsDecimal ds n) :
    IsToken expected ds :=
  .word h.1 fun c hc => by simp [isNameChar, isDigit_of_isDecimal h c hc]

theorem isToken_rangeTokens {range : Option Duration} {rs : List (List Char)}
    (h : RangeTokens range rs) : ∀ t ∈ rs, IsToken ['[', ']'] t := by
  cases h with
  | omitted => simp
  | seconds hds =>
    simp only [List.forall_mem_cons]
    exact ⟨.sign (by decide) (by decide), isToken_of_isDecimal hds, .of_isLabelName (by decide),
      .sign (by decide) (by decide), by simp⟩

/-- A number of seconds is read back. -/
theorem duration_of_spaced {text ds : List Char} {n : Nat} (hds : IsDecimal ds n)
    (hn : n ≤ maxUnsigned64) (h : Spaced [ds, ['s']] text) :
    duration text = .ok (.ofSeconds n) := by
  have hsolid : Solid ds := (isToken_of_isDecimal hds : IsToken [] ds).solid
  obtain ⟨b, htrim, hb⟩ :=
    Spaced.trim_cons_concat [] h hsolid (solid_of_isLabelName (by decide))
  rw [duration_eq_ok_iff, htrim]
  exact Duration.read_seconds hds hn hb.blanks

/-! ## Selectors -/

section Selectors

variable {text : List Char} {metric : String} {labels : Labels} {ls : List (List Char)}
  (hmetric : isMetricName metric.toList = true)
  (hlabels : ∀ k ∈ labels.keys, isLabelName k.toList = true) (hls : LabelsTokens labels ls)

include hmetric

/-- A name on its own is a selector without constraints. -/
theorem selectorParts_of_name : selectorParts metric.toList = .ok (metric.toList, none) := by
  have hhides (d : Char) (hd : d ∈ signs) : Quoted.find? d metric.toList = none :=
    ((IsToken.of_isMetricName hmetric : IsToken [] _).hides hd List.not_mem_nil).find?_eq_none
  rw [selectorParts, hhides '{' (by decide)]
  simp only [hhides '}' (by decide)]
  rfl

/-- The braces of a selector are found where they stand. -/
theorem selectorParts_of_spaced {bs : List (List Char)} (hbs : ∀ t ∈ bs, IsToken ['=', ','] t)
    (h : Spaced (metric.toList :: ['{'] :: (bs ++ [['}']])) text) :
    ∃ body, Spaced bs body ∧ selectorParts (trim text) = .ok (metric.toList, some body) := by
  have hsolid : Solid metric.toList := solid_of_isMetricName hmetric
  have hmetricToken : ∀ t ∈ [metric.toList], IsToken [] t := by
    simpa using .of_isMetricName hmetric
  -- the closing brace ends the text, and the opening one is the first before it
  obtain ⟨p, htrim, hp⟩ := Spaced.trim_concat (metric.toList :: ['{'] :: bs) h
    (by simpa using ⟨hsolid, solid_sign (by decide), solid_of_tokens hbs⟩) (solid_sign (by decide))
  obtain ⟨name, body, rfl, hname, hnameSpaced, hbody⟩ :=
    exists_cut [metric.toList] hp hmetricToken (by decide) List.not_mem_nil
  have hcut : trim text = name ++ '{' :: (body ++ ['}']) := by simp [htrim]
  have hopen : Quoted.find? '{' (trim text) = some name.length := by
    rw [hcut, Quoted.find?_append_cons hname rfl]
  have hclose : Quoted.find? '}' (body ++ ['}']) = some body.length :=
    Quoted.find?_append_cons (hides_of_spaced hbody hbs (by decide) (by decide)) rfl []
  have hdrop : (trim text).drop (name.length + 1) = body ++ ['}'] := by
    simp [hcut, List.drop_append]
  have htake : (trim text).take name.length = name := by simp [hcut]
  refine ⟨body, hbody, ?_⟩
  simp only [selectorParts, hopen, hdrop, hclose, htake, hnameSpaced.trim_single hsolid]
  simp [List.drop_append]

include hlabels hls

/-- A metric with its labels is read back. -/
theorem selector_of_spaced (h : Spaced (metric.toList :: ls) text) :
    selector text = .ok { metric, labels } := by
  have hne : metric.toList.isEmpty = false := by
    rw [List.isEmpty_eq_false_iff]
    exact ne_nil_of_isMetricName hmetric
  cases hls with
  | omitted hempty =>
    have hlabels : labels = Dictionary.empty := Dictionary.ext hempty
    simp only [selector, h.trim_single (solid_of_isMetricName hmetric),
      selectorParts_of_name hmetric, bind, Except.bind, pure, Except.pure, hne, hmetric,
      Bool.not_true, Bool.false_eq_true, if_false, String.ofList_toList, hlabels]
  | braces ms hquotes hperm =>
    obtain ⟨body, hbody, hparts⟩ :=
      selectorParts_of_spaced hmetric (isToken_matchersTokens hquotes hperm hlabels) h
    simp only [selector, hparts, bind, Except.bind,
      constraints_of_spaced hquotes hperm hlabels hbody, hne, hmetric, Bool.not_true,
      Bool.false_eq_true, if_false, String.ofList_toList]
    rfl

/-- Without a range, the selector is the whole text. -/
theorem rangeSelector_of_spaced (h : Spaced (metric.toList :: ls) text) :
    rangeSelector text = .ok { metric, labels } := by
  have htokens : ∀ t ∈ metric.toList :: ls, IsToken ['=', ',', '{', '}'] t :=
    List.forall_mem_cons.2 ⟨.of_isMetricName hmetric, isToken_labelsTokens hls hlabels⟩
  have htrim : Spaced (metric.toList :: ls) (trim text) := h.trim (solid_of_tokens htokens)
  have hhides : Hides '[' (trim text) := hides_of_spaced htrim htokens (by decide) (by decide)
  -- a name or a brace is what the text ends with
  have hlast : ¬ (trim text).getLast? = some ']' := by
    cases hls with
    | omitted =>
      rw [h.trim_single (htokens _ List.mem_cons_self).solid]
      intro hlast
      exact not_mem_of_isMetricName hmetric (by decide) (List.mem_of_mem_getLast? hlast)
    | braces ms hquotes hperm =>
      obtain ⟨m, hm, -⟩ := Spaced.trim_cons_concat (['{'] :: matchersTokens ms) h
        (htokens _ List.mem_cons_self).solid (solid_sign (by decide))
      rw [hm, ← List.append_assoc, List.getLast?_concat]
      decide
  rw [rangeSelector]
  simp only [if_neg hlast, hhides.find?_eq_none, Option.isSome_none, Bool.false_eq_true, if_false]
  exact selector_of_spaced hmetric hlabels hls htrim

/-- With a range, the selector is what stands before the bracket. -/
theorem rangeSelector_of_spaced_seconds {ds : List Char} {n : Nat} (hds : IsDecimal ds n)
    (hpos : 0 < n) (hn : n ≤ maxUnsigned64)
    (h : Spaced (metric.toList :: (ls ++ [['['], ds, ['s'], [']']])) text) :
    rangeSelector text = .ok { metric, labels, range := some (.ofSeconds n) } := by
  have hsel : ∀ t ∈ metric.toList :: ls, IsToken ['=', ',', '{', '}'] t :=
    List.forall_mem_cons.2 ⟨.of_isMetricName hmetric, isToken_labelsTokens hls hlabels⟩
  -- the length of time is two tokens, with blanks allowed between the digits and the unit
  have hseconds : ∀ t ∈ [ds, ['s']], IsToken [] t := by
    simp only [List.forall_mem_cons]
    exact ⟨isToken_of_isDecimal hds, .of_isLabelName (by decide), by simp⟩
  have htokens : Spaced (((metric.toList :: ls) ++ ['['] :: [ds, ['s']]) ++ [[']']]) text := by
    simpa using h
  obtain ⟨p, htrim, hp⟩ := htokens.trim_concat _
    (List.forall_mem_append.2 ⟨solid_of_tokens hsel, List.forall_mem_cons.2
      ⟨solid_sign (by decide), solid_of_tokens hseconds⟩⟩) (solid_sign (by decide))
  obtain ⟨a, c, rfl, hhides, ha, hc⟩ := exists_cut _ hp hsel (by decide) (by decide)
  -- the opening bracket is the last one, since the digits and the unit have none
  have hcut : trim text = a ++ '[' :: (c ++ [']']) := by simp [htrim]
  have hlast : (trim text).getLast? = some ']' := by rw [htrim, List.getLast?_concat]
  have hopen : Quoted.findLast? '[' (trim text) = some a.length := by
    rw [hcut]
    exact Quoted.findLast?_append_cons hhides.closed rfl
      ((hides_of_spaced hc hseconds (by decide) List.not_mem_nil).append
        (Quoted.hides_of_no_quote (by simp; decide) (by simp)))
  have hinner : ((trim text).drop (a.length + 1)).dropLast = c := by
    simp [hcut, List.drop_append]
  have htake : (trim text).take a.length = a := by simp [hcut]
  have hnanos : ¬ (Duration.ofSeconds n).nanos = 0 := by
    simp only [Duration.ofSeconds]
    omega
  rw [rangeSelector]
  simp only [if_pos hlast, hopen, hinner, htake, duration_of_spaced hds hn hc, bind, Except.bind,
    if_neg hnanos, selector_of_spaced hmetric hlabels hls ha]
  rfl

end Selectors

/-! ## Groupings -/

section Groupings

variable {text : List Char} {names : List String}
  (hnames : ∀ name ∈ names, isLabelName name.toList = true)

include hnames

/-- The tokens of a list of names are tokens. -/
theorem isToken_names : ∀ t ∈ namesTokens names, IsToken [','] t := by
  refine forall_mem_intercalate (.sign (by decide) (by decide)) fun ts hts t ht => ?_
  obtain ⟨name, hname, rfl⟩ := List.mem_map.1 hts
  rw [List.mem_singleton.1 ht]
  exact .of_isLabelName (hnames name hname)

omit hnames in
/-- A name with blanks around it has no comma. -/
theorem comma_not_mem_of_spaced {name : String} (hname : isLabelName name.toList = true)
    (h : Spaced [name.toList] text) : ',' ∉ text := by
  intro hmem
  rcases h.isBlank_or_mem hmem with hblank | ⟨t, ht, hmem⟩
  · cases hblank
  · rw [List.mem_singleton.1 ht] at hmem
    exact not_mem_of_isMetricName (isMetricName_of_isLabelName hname) (by decide) hmem

/-- Between commas there are the names, with blanks around them. -/
theorem map_trim_of_forall₂ {parts : List (List Char)}
    (hparts : List.Forall₂ Spaced (names.map fun n => [n.toList]) parts) :
    parts.map trim = names.map String.toList ∧ ∀ part ∈ parts, ',' ∉ part := by
  rw [List.forall₂_map_left_iff] at hparts
  induction hparts with
  | nil => simp
  | cons hpart _ ih =>
    obtain ⟨hname, hnames⟩ := List.forall_mem_cons.1 hnames
    obtain ⟨hmap, hcomma⟩ := ih hnames
    have htrim := hpart.trim_single (solid_of_isLabelName hname)
    exact ⟨by rw [List.map_cons, List.map_cons, htrim, hmap],
      List.forall_mem_cons.2 ⟨comma_not_mem_of_spaced hname hpart, hcomma⟩⟩

/-- The pieces that are not blank are the names. -/
theorem filter_map_trim_splitOn (h : Spaced (namesTokens names) text) :
    ((text.splitOn ',').map trim).filter (fun n => !n.isEmpty) = names.map String.toList := by
  by_cases hempty : names = []
  · subst hempty
    have hblanks : Blanks text := Spaced.blanks h
    have hcomma : ',' ∉ text := fun hmem => absurd (hblanks _ hmem) (by decide)
    have hsplit : ([','].intercalate [text]).splitOn ',' = [text] :=
      List.splitOn_intercalate ',' (by simpa using hcomma) (by simp)
    rw [List.intercalate_singleton] at hsplit
    simp [hsplit, Text.trim_of_blanks hblanks]
  · obtain ⟨parts, rfl, hparts⟩ := h.exists_intercalate (by simpa using hempty)
    obtain ⟨hmap, hcomma⟩ := map_trim_of_forall₂ hnames hparts
    have hne : parts ≠ [] := by
      rintro rfl
      exact hempty (List.map_eq_nil_iff.1 hmap.symm)
    rw [List.splitOn_intercalate ',' hcomma hne, hmap, List.filter_eq_self]
    intro n hn
    obtain ⟨name, hname, rfl⟩ := List.mem_map.1 hn
    simpa using (solid_of_isLabelName (hnames name hname)).ne_nil

/-- Names between commas are read back. -/
theorem labelNames_of_spaced (h : Spaced (namesTokens names) text) :
    labelNames text = .ok names := by
  rw [labelNames, filter_map_trim_splitOn hnames h, Fallible.mapM_eq_ok_iff,
    List.forall₂_map_left_iff, List.forall₂_same]
  intro name hname
  rw [if_pos (hnames name hname), String.ofList_toList]

end Groupings

/-- A keyword is told by the blank or the parenthesis behind it. -/
theorem behindKeyword?_of_spaced {keyword : String} {ts : List (List Char)} {tail : List Char}
    (h : Spaced (['('] :: ts) tail) :
    behindKeyword? keyword (keyword.toList ++ tail) = some tail := by
  have hdrop : (keyword.toList ++ tail).drop keyword.length = tail := by
    rw [← String.length_toList, List.drop_left]
  have hpre : keyword.toList.isPrefixOf (keyword.toList ++ tail) = true := by simp
  obtain ⟨b, rest, rfl, hb, -⟩ := Spaced.exists_cons [] h
  rw [behindKeyword?, if_pos hpre, hdrop]
  cases b with
  | nil => rfl
  | cons c cs =>
    have hblank : isBlank c = true := hb.blanks c List.mem_cons_self
    simp [hblank]

/-- One keyword is not the beginning of the other. -/
theorem behindKeyword?_by_without (tail : List Char) :
    behindKeyword? "by" ("without".toList ++ tail) = none := rfl

/-- The keyword is what a grouping starts with. -/
theorem exists_behindKeyword {keyword : String} {names : List String} {text : List Char}
    (hkeyword : isLabelName keyword.toList = true)
    (hnames : ∀ name ∈ names, isLabelName name.toList = true)
    (h : Spaced (clauseTokens keyword names) text) :
    ∃ tail, trim text = keyword.toList ++ tail ∧
      behindKeyword? keyword (keyword.toList ++ tail) = some tail ∧
      Spaced (['('] :: (namesTokens names ++ [[')']])) tail := by
  have hsolid : ∀ t ∈ clauseTokens keyword names, Solid t := by
    simp only [clauseTokens, List.forall_mem_cons, List.forall_mem_append]
    exact ⟨solid_of_isLabelName hkeyword, solid_sign (by decide),
      solid_of_tokens (isToken_names hnames), solid_sign (by decide), by simp⟩
  obtain ⟨tail, htrim, htail⟩ := h.trim_cons hsolid
  exact ⟨tail, htrim, behindKeyword?_of_spaced htail, htail⟩

/-- Names in parentheses are found between them. -/
theorem exists_parentheses {names : List String} {tail : List Char}
    (hnames : ∀ name ∈ names, isLabelName name.toList = true)
    (h : Spaced (['('] :: (namesTokens names ++ [[')']])) tail) :
    ∃ close, (trimStart tail).head? = some '(' ∧
      Quoted.closing? (trimStart tail) 0 = some close ∧
      trim ((trimStart tail).drop (close + 1)) = [] ∧
      labelNames (((trimStart tail).take close).drop 1) = .ok names := by
  obtain ⟨tail', htrim, htail⟩ := h.trimStart_cons (solid_sign (by decide))
  obtain ⟨inner, rest, rfl, hinner, hrest⟩ := htail.exists_cons _
  have hbalanced := balanced_of_spaced hinner fun t ht =>
    (isToken_names hnames t ht).mono (by decide)
  have hclosing := Quoted.closing?_append (a := []) Quoted.closed_nil hbalanced rest
  rw [List.length_nil, Nat.zero_add] at hclosing
  have hbehind : ('(' :: (inner ++ ')' :: rest)).drop (1 + inner.length + 1) = rest := by
    rw [Nat.add_assoc, Nat.add_comm, List.drop_succ_cons]
    simp [List.drop_append]
  have hwithin : (('(' :: (inner ++ ')' :: rest)).take (1 + inner.length)).drop 1 = inner := by
    rw [Nat.add_comm, List.take_succ_cons, List.drop_succ_cons, List.drop_zero]
    simp
  rw [htrim]
  exact ⟨1 + inner.length, rfl, hclosing,
    (congrArg trim hbehind).trans (Text.trim_of_blanks hrest.blanks),
    (congrArg labelNames hwithin).trans (labelNames_of_spaced hnames hinner)⟩

/-- A grouping is read back. -/
theorem grouping_of_spaced {g : Grouping} {text : List Char}
    (hnames : ∀ name ∈ g.names, isLabelName name.toList = true)
    (h : Spaced (groupingTokens g) text) : grouping (trim text) = .ok g := by
  cases g with
  | none =>
    rw [Text.trim_of_blanks (Spaced.blanks h)]
    rfl
  | on names =>
    obtain ⟨tail, htrim, hkeyword, htail⟩ := exists_behindKeyword (by decide) hnames h
    obtain ⟨close, hhead, hclosing, hbehind, hresult⟩ := exists_parentheses hnames htail
    have hne : ("by".toList ++ tail).isEmpty = false := rfl
    simp only [htrim, grouping, hne, hkeyword, hhead, hclosing, hbehind, hresult, bind,
      Except.bind, pure, Except.pure, Bool.false_eq_true, if_false, ne_eq, not_true,
      List.isEmpty_nil, Bool.not_true]
    rfl
  -- the other keyword, which is only looked for if the first one is not there
  | without names =>
    obtain ⟨tail, htrim, hkeyword, htail⟩ := exists_behindKeyword (by decide) hnames h
    obtain ⟨close, hhead, hclosing, hbehind, hresult⟩ := exists_parentheses hnames htail
    have hne : ("without".toList ++ tail).isEmpty = false := rfl
    simp only [htrim, grouping, hne, behindKeyword?_by_without, hkeyword, hhead, hclosing, hbehind,
      hresult, bind, Except.bind, pure, Except.pure, Bool.false_eq_true, if_false, ne_eq,
      not_true, List.isEmpty_nil, Bool.not_true]
    rfl

end Telemetry.Query
