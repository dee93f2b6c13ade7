import Telemetry.Proofs.Query.Anatomy
import Telemetry.Proofs.Query.Rendering

/-!
Selectors inside of calls.

A selector may be put between the parentheses of a function or of an aggregation, and mostly it
means there what it means on its own. It may not if it shows parentheses itself, outside of quotes:
these can only be in the values of its labels, and the reader of calls counts them all the same. For
a function there must be none, and for an aggregation they must match (`parse_call_iff`).

Both directions rest on where a call ends. If the parentheses match, it ends behind the selector. If
it ends anywhere else, then what stands inside is a selector that goes on behind the given one with
a parenthesis, or the other way round, and there are no two such selectors.
-/

set_option autoImplicit false

namespace Telemetry.Query

open Fallible
open Quoted (Balanced Closed Hides Matched)
open Text (Blanks Solid Spaced trim trimEnd)

/-! ## What is read of a call

The expression in a call is read as a selector if that is possible, and else as a call. Which of
the two it was is told from the result. -/

section Calls

variable {catalog : Catalog} {text : List Char} {q : Query}

/-- What a call of a function that is read looks like. -/
theorem of_plain_eq_ok {call : Call} (h : call.plain = .ok q) :
    call.rest = [] ∧ Quoted.find? '(' call.inner = none ∧
      ∃ query, (if (trim call.inner).isEmpty then pure {} else rangeSelector call.inner) =
        .ok query ∧ q = { query with function := some (String.ofList call.name) } := by
  rw [Call.plain] at h
  simp only [fault_bind, ite_fault_eq_ok_iff, Bool.not_eq_true', Bool.not_eq_false,
    List.isEmpty_iff, Bool.not_eq_true, Option.isSome_eq_false_iff, Option.isNone_iff_eq_none] at h
  obtain ⟨hrest, hflat, h⟩ := h
  refine ⟨hrest, hflat, ?_⟩
  split at h
  next hblank =>
    rw [if_pos (List.isEmpty_iff.2 hblank)]
    exact ⟨_, rfl, (Except.ok.inj h).symm⟩
  next hne =>
    rw [if_neg (by rwa [List.isEmpty_iff])]
    obtain ⟨query, hquery, hq⟩ := bind_eq_ok h
    exact ⟨query, hquery, (Except.ok.inj hq).symm⟩

@[simp] theorem rangeSelector_trim (text : List Char) :
    rangeSelector (trim text) = rangeSelector text := by
  rw [rangeSelector, Text.trim_trim, ← rangeSelector]

/-- Where no call opens, a selector is read. -/
theorem expression_of_none (hnone : callOpening? (trim text) = none) :
    expression catalog text = rangeSelector text := by
  rw [expression]
  split
  next => rw [rangeSelector_trim]
  next opening hopening => cases hnone.symm.trans hopening

/-- A call that cannot be taken apart cannot be read. -/
theorem expression_of_error {opening : Nat} {e : Error}
    (hopening : callOpening? (trim text) = some opening)
    (hcall : ∀ hlt, (Call.ofText (trim text) opening hlt).map (·.val) = .error e) :
    expression catalog text = .error e := by
  have hcall := hcall (callOpening?_lt hopening)
  rw [expression]
  split
  next hnone => cases hnone.symm.trans hopening
  next opening' hopening' =>
    cases hopening.symm.trans hopening'
    split
    next e' he =>
      rw [he] at hcall
      cases hcall
      rfl
    next call hlt hok =>
      rw [hok] at hcall
      cases hcall

/-- There are three ways to read a text: as a selector, as a call, or as a call that cannot be taken
apart. -/
theorem expression_cases (text : List Char) :
    callOpening? (trim text) = none ∨
      ∃ opening, callOpening? (trim text) = some opening ∧
        ((∃ e, ∀ hlt, (Call.ofText (trim text) opening hlt).map (·.val) = .error e) ∨
          ∃ call, ∀ hlt, (Call.ofText (trim text) opening hlt).map (·.val) = .ok call) := by
  cases hopening : callOpening? (trim text) with
  | none => exact .inl rfl
  | some opening =>
    refine .inr ⟨opening, rfl, ?_⟩
    cases hcall : (Call.ofText (trim text) opening (callOpening?_lt hopening)).map (·.val) with
    | error e => exact .inl ⟨e, fun _ => hcall⟩
    | ok call => exact .inr ⟨call, fun _ => hcall⟩

@[simp] theorem expression_trim (catalog : Catalog) (text : List Char) :
    expression catalog (trim text) = expression catalog text := by
  have htrim := Text.trim_trim text
  rcases expression_cases text with hnone | ⟨opening, hopening, ⟨e, hcall⟩ | ⟨call, hcall⟩⟩
  · have hnone' : callOpening? (trim (trim text)) = none := by rwa [htrim]
    rw [expression_of_none hnone, expression_of_none hnone', rangeSelector_trim]
  · have hopening' : callOpening? (trim (trim text)) = some opening := by rwa [htrim]
    have hcall' : ∀ hlt, (Call.ofText (trim (trim text)) opening hlt).map (·.val) = .error e := by
      rwa [htrim]
    rw [expression_of_error hopening hcall, expression_of_error hopening' hcall']
  · have hopening' : callOpening? (trim (trim text)) = some opening := by rwa [htrim]
    have hcall' : ∀ hlt, (Call.ofText (trim (trim text)) opening hlt).map (·.val) = .ok call := by
      rwa [htrim]
    rw [expression_of_call hopening hcall, expression_of_call hopening' hcall', htrim]

/-- What is read of a text with a call is read of its parts. -/
theorem exists_call_of_expression {opening : Nat}
    (hopening : callOpening? (trim text) = some opening) (h : expression catalog text = .ok q) :
    ∃ call, ∀ hlt, (Call.ofText (trim text) opening hlt).map (·.val) = .ok call := by
  rcases expression_cases text with hnone | ⟨opening', hopening', ⟨e, hcall⟩ | hcall⟩
  · cases hnone.symm.trans hopening
  · rw [expression_of_error hopening' hcall] at h
    cases h
  · cases hopening.symm.trans hopening'
    exact hcall

/-- What is read as a query without a function and without an aggregation is a selector. -/
theorem rangeSelector_of_expression (h : expression catalog text = .ok q)
    (hfunction : q.function = none) (haggregation : q.aggregation = none) :
    rangeSelector text = .ok q := by
  rcases expression_cases text with hnone | ⟨opening, hopening, ⟨e, hcall⟩ | ⟨call, hcall⟩⟩
  · rwa [expression_of_none hnone] at h
  · rw [expression_of_error hopening hcall] at h
    cases h
  · rw [expression_of_call hopening hcall] at h
    split at h
    · -- an aggregation is applied
      split at h
      · cases h
      · obtain ⟨query, -, h⟩ := bind_eq_ok h
        simp only [fault_bind, ite_fault_eq_ok_iff] at h
        obtain ⟨grouping, -, hq⟩ := bind_eq_ok h.2
        cases hq
        cases haggregation
    · -- a function is applied
      obtain ⟨-, -, query, -, rfl⟩ := of_plain_eq_ok h
      cases hfunction

/-- A call is taken apart behind its name, and where the parentheses match for the first time. -/
theorem of_ofText_eq_ok {a behind : List Char} {call : Call} (htext : text = a ++ '(' :: behind)
    (ha : Closed a) {hlt : a.length < text.length}
    (h : (Call.ofText text a.length hlt).map (·.val) = .ok call) :
    ∃ inner rest, behind = inner ++ ')' :: rest ∧ Closed inner ∧ Matched inner ∧
      call = ⟨trim a, inner, trim rest⟩ := by
  subst htext
  obtain ⟨call', hcall, rfl⟩ := map_eq_ok h
  have htake : (a ++ '(' :: behind).take a.length = a := by simp
  obtain ⟨-, close, hclose, hparts⟩ := parts_of_ofText hcall
  obtain ⟨inner, rest, rfl, hclosed, hmatched, rfl⟩ := Quoted.exists_append_of_closing? ha hclose
  rw [htake, take_parentheses, drop_parentheses] at hparts
  exact ⟨inner, rest, rfl, hclosed, hmatched, hparts⟩

end Calls

/-! ## Texts of calls -/

section Texts

variable {name : String} (hname : isLabelName name.toList = true) (inner behind : List Char)

include hname

/-- A name shows no sign. -/
theorem hides_of_isLabelName {d : Char} (hd : d ∈ signs) : Hides d name.toList :=
  (IsToken.of_isLabelName hname : IsToken [] name.toList).hides hd List.not_mem_nil

/-- Trimming a call leaves its parentheses and what stands between them. -/
theorem exists_trim_call :
    ∃ rest, trim (name.toList ++ '(' :: (inner ++ ')' :: behind)) =
      name.toList ++ '(' :: (inner ++ ')' :: rest) ∧ trim rest = trim behind ∧
      (behind = [] → rest = []) := by
  obtain ⟨e, he, hcut⟩ := Text.exists_trimEnd behind
  refine ⟨trimEnd behind, ?_, ?_, fun h => by rw [h]; rfl⟩
  -- the name begins the text, and what is left behind the parenthesis does not end with a blank
  · have hsolid : Solid (name.toList ++ ('(' :: (inner ++ ')' :: trimEnd behind))) := by
      refine (solid_of_isLabelName hname).append ?_ fun c hc => ?_
      · simp
      · rw [← List.cons_append, List.getLast?_append, List.getLast?_cons] at hc
        cases hlast : (trimEnd behind).getLast? with
        | none =>
          rw [hlast] at hc
          obtain rfl : ')' = c := by simpa using hc
          decide
        | some d =>
          rw [hlast] at hc
          obtain rfl : d = c := by simpa using hc
          exact Text.last_trimEnd behind d hlast
    have happend := Text.trim_append Text.blanks_nil hsolid he
    simpa [← hcut] using happend
  · conv_rhs => rw [hcut, Text.trim_append_blanks he]

/-- A name with a parenthesis behind it is the beginning of a call. -/
theorem callOpening?_call (rest : List Char) :
    callOpening? (name.toList ++ '(' :: rest) = some name.toList.length := by
  have hbrace := (hides_of_isLabelName hname (d := '{') (by decide)).find?_eq_none
  have htake : (name.toList ++ '(' :: rest).take name.toList.length = name.toList := by simp
  rw [callOpening?, Quoted.find?_append_cons (hides_of_isLabelName hname (by decide)) rfl]
  simp only [htake, hbrace, Option.isNone_none, if_true]

end Texts

/-! ## Where a call ends

A call ends at the parenthesis that closes its first one again, as the scanner counts them. Behind
it there is a grouping or nothing. -/

section Ends

variable {catalog : Catalog} {text inner behind : List Char} {name : String} {q : Query}
  (hname : isLabelName name.toList = true)
  (htext : trim text = trim (name.toList ++ '(' :: (inner ++ ')' :: behind)))

include hname htext

/-- If the parentheses match, a call ends behind what stands between them. -/
theorem expression_call (hinner : Balanced inner) : expression catalog text =
    if catalog.isAggregation name then
      if (trim inner).isEmpty then fault .aggregationWithoutArgument (trim text)
      else do
        let query ← expression catalog inner
        if query.aggregation.isSome then fault .aggregationNested inner
        let grouping ← grouping (trim behind)
        return { query with aggregation := some ⟨name, grouping⟩ }
    else Call.plain ⟨name.toList, inner, trim behind⟩ := by
  obtain ⟨rest, hcut, hrest, -⟩ := exists_trim_call hname inner behind
  rw [← htext] at hcut
  have hopening : callOpening? (trim text) = some name.toList.length := by
    rw [hcut, callOpening?_call hname]
  have hspaced : Spaced [name.toList] name.toList := by
    simpa using Spaced.flatten [name.toList]
  have hcall : ∀ hlt, (Call.ofText (trim text) name.toList.length hlt).map (·.val) =
      .ok ⟨name.toList, inner, trim behind⟩ := by
    rw [hcut, ← hrest]
    exact Call.ofText_append rest hname hspaced hinner
  rw [expression_of_call hopening hcall, String.ofList_toList]

/-- Wherever a call ends, what stands inside shows matched parentheses. -/
theorem exists_of_expression_call (h : expression catalog text = .ok q) :
    ∃ inner' rest rest', inner ++ ')' :: rest = inner' ++ ')' :: rest' ∧
      (behind = [] → rest = []) ∧ Closed inner' ∧ Matched inner' ∧ expression catalog text =
        if catalog.isAggregation name then
          if (trim inner').isEmpty then fault .aggregationWithoutArgument (trim text)
          else do
            let query ← expression catalog inner'
            if query.aggregation.isSome then fault .aggregationNested inner'
            let grouping ← grouping (trim rest')
            return { query with aggregation := some ⟨name, grouping⟩ }
        else Call.plain ⟨name.toList, inner', trim rest'⟩ := by
  obtain ⟨rest, hcut, -, hempty⟩ := exists_trim_call hname inner behind
  rw [← htext] at hcut
  have hopening : callOpening? (trim text) = some name.toList.length := by
    rw [hcut, callOpening?_call hname]
  obtain ⟨call, hcall⟩ := exists_call_of_expression hopening h
  have hparts := hcall (callOpening?_lt hopening)
  obtain ⟨inner', rest', hsplit, hclosed, hmatched, rfl⟩ :=
    of_ofText_eq_ok hcut (hides_of_isLabelName hname (d := '(') (by decide)).closed hparts
  refine ⟨inner', rest, rest', hsplit, hempty, hclosed, hmatched, ?_⟩
  rw [expression_of_call hopening hcall]
  simp only [(solid_of_isLabelName hname).trim_eq, String.ofList_toList]

end Ends

/-! ## Selectors inside of calls

A value without quotes may have parentheses in it. On its own a selector may show them; inside of
a function it may not, and inside of an aggregation they have to match. -/

section Selectors

variable {s : List Char} {q : Query}

/-- Two selectors with a closing parenthesis behind each are the same if the texts are: otherwise
one would go on behind the other with a parenthesis. -/
theorem eq_of_append_close {inner rest rest' : List Char} {q' : Query}
    (hs : rangeSelector s = .ok q) (hinner : rangeSelector inner = .ok q')
    (h : s ++ ')' :: rest = inner ++ ')' :: rest') : s = inner := by
  rcases List.append_eq_append_iff.1 h with ⟨e, rfl, he⟩ | ⟨e, rfl, he⟩
  · cases e with
    | nil => simp
    | cons c e =>
      obtain ⟨rfl, -⟩ := List.cons.inj he
      exact absurd hinner (rangeSelector_ne_ok_of_append hs q')
  · cases e with
    | nil => simp
    | cons c e =>
      obtain ⟨rfl, -⟩ := List.cons.inj he
      exact absurd hs (rangeSelector_ne_ok_of_append hinner q)

/-- If nothing but blanks follows where a call ends, it ends with its last parenthesis. -/
theorem eq_of_append_close_of_blanks {inner rest : List Char}
    (h : s ++ [')'] = inner ++ ')' :: rest) (hrest : Blanks rest) : s = inner := by
  rcases List.eq_nil_or_concat' rest with rfl | ⟨init, c, rfl⟩
  · exact List.append_cancel_right h
  · have hlast := congrArg List.getLast? h
    rw [← List.cons_append, ← List.append_assoc, List.getLast?_concat, List.getLast?_concat]
      at hlast
    obtain rfl : ')' = c := Option.some.inj hlast
    exact absurd (hrest ')' (by simp)) (by decide)

/-- What is read as a range selector is not blank. -/
theorem isEmpty_trim_of_rangeSelector (hs : rangeSelector s = .ok q) :
    (trim s).isEmpty = false := by
  rw [List.isEmpty_eq_false_iff]
  intro hblank
  rw [← rangeSelector_trim, hblank] at hs
  cases hs

end Selectors

section Parse

variable {s : String} {q : Query}

theorem of_parse_eq_ok {text : String} (h : parse text = .ok q) :
    expression Catalog.builtin text.toList = .ok q := by
  rw [parse] at h
  split at h
  · cases h
  · rwa [expression_trim] at h

/-- A text that starts with a name is read as an expression. -/
theorem parse_call {name : String} (hname : isLabelName name.toList = true)
    (inner behind : String) :
    parse (name ++ "(" ++ inner ++ ")" ++ behind) = expression Catalog.builtin
      (name.toList ++ '(' :: (inner.toList ++ ')' :: behind.toList)) := by
  have htoList : (name ++ "(" ++ inner ++ ")" ++ behind).toList =
      name.toList ++ '(' :: (inner.toList ++ ')' :: behind.toList) := by
    simp [String.toList_append]
  obtain ⟨rest, hcut, -, -⟩ := exists_trim_call hname inner.toList behind.toList
  rw [parse, htoList, if_neg (by simp [hcut]), expression_trim]

section Selector

variable (hs : parse s = .ok q) (hfunction : q.function = none)
  (haggregation : q.aggregation = none)

include hs hfunction haggregation

/-- A function can be called with a selector that shows no parentheses, and with no other one. -/
theorem parse_function_iff {f : String} (hf : isLabelName f.toList = true)
    (hplain : Catalog.builtin.isAggregation f = false) :
    parse (f ++ "(" ++ s ++ ")") = .ok { q with function := some f } ↔
      Hides '(' s.toList ∧ Hides ')' s.toList := by
  have hselector := rangeSelector_of_expression (of_parse_eq_ok hs) hfunction haggregation
  have hclosed := closed_of_rangeSelector hselector
  have hempty := isEmpty_trim_of_rangeSelector hselector
  have hparse := parse_call hf s ""
  rw [String.append_empty] at hparse
  rw [hparse]
  constructor
  · intro h
    obtain ⟨inner, rest, rest', hsplit, hnil, -, hmatched, hcall⟩ :=
      exists_of_expression_call hf rfl h
    rw [hcall, hplain, if_neg Bool.false_ne_true] at h
    obtain ⟨hrest, hflat, -⟩ := of_plain_eq_ok h
    -- nothing may follow the call, so its argument is the whole selector
    rw [hnil rfl] at hsplit
    obtain rfl := eq_of_append_close_of_blanks hsplit (Text.blanks_of_trim_eq_nil hrest)
    have hopen := Quoted.hides_of_find?_eq_none hflat
    exact ⟨⟨hclosed, hopen⟩, hclosed, Quoted.not_mem_of_matched hmatched hopen⟩
  · rintro ⟨hopen, hclose⟩
    have hblank : trim "".toList = [] := rfl
    rw [expression_call hf rfl (Quoted.balanced_of_hides hopen hclose), hplain,
      if_neg Bool.false_ne_true, Call.plain]
    simp only [hblank, hopen.find?_eq_none, hempty, hselector, String.ofList_toList]
    rfl

/-- An aggregation can be applied to a selector if the parentheses that it shows match, and to no
other one. -/
theorem parse_aggregation_iff {operation clause : String} {g : Grouping}
    (hoperation : Catalog.builtin.isAggregation operation = true)
    (hgrouping : grouping (trim clause.toList) = .ok g) :
    parse (operation ++ "(" ++ s ++ ")" ++ clause) =
        .ok { q with aggregation := some ⟨operation, g⟩ } ↔ Matched s.toList := by
  have hexpression := of_parse_eq_ok hs
  have hselector := rangeSelector_of_expression hexpression hfunction haggregation
  have hname := isLabelName_of_isAggregation hoperation
  rw [parse_call hname]
  constructor
  · intro h
    -- the call was cut at the parenthesis that matches the first one
    obtain ⟨inner, rest, rest', hsplit, -, -, hmatched, hcall⟩ :=
      exists_of_expression_call hname rfl h
    rw [hcall, if_pos hoperation] at h
    split at h
    · cases h
    · obtain ⟨query, hquery, h⟩ := bind_eq_ok h
      simp only [fault_bind, ite_fault_eq_ok_iff, Bool.not_eq_true, Option.isSome_eq_false_iff,
        Option.isNone_iff_eq_none] at h
      obtain ⟨hflat, h⟩ := h
      obtain ⟨g', -, hresult⟩ := bind_eq_ok h
      have hsame := congrArg Query.function (Except.ok.inj hresult)
      dsimp only at hsame
      -- what stands inside is a selector too, so it is the same one
      have hinner := rangeSelector_of_expression hquery (hsame.trans hfunction) hflat
      rw [eq_of_append_close hselector hinner hsplit]
      exact hmatched
  · intro hmatched
    -- a selector leaves no quote open, so with matched parentheses the call ends where it should
    have hbalanced := Balanced.of_matched (closed_of_rangeSelector hselector) hmatched
    rw [expression_call hname rfl hbalanced, if_pos hoperation,
      isEmpty_trim_of_rangeSelector hselector, if_neg Bool.false_ne_true, hexpression]
    simp only [hgrouping, bind, Except.bind, haggregation, Option.isSome_none]
    rfl

end Selector

/-- **A selector means inside of a call what it means on its own, unless it shows parentheses.** For
a function there must be none outside of quotes, and for an aggregation they must match. -/
theorem parse_call_iff (hs : parse s = .ok q) (hfunction : q.function = none)
    (haggregation : q.aggregation = none) :
    (∀ f : String, isLabelName f.toList = true → Catalog.builtin.isAggregation f = false →
      (parse (f ++ "(" ++ s ++ ")") = .ok { q with function := some f } ↔
        Hides '(' s.toList ∧ Hides ')' s.toList)) ∧
    ∀ (operation clause : String) (g : Grouping),
      Catalog.builtin.isAggregation operation = true → grouping (trim clause.toList) = .ok g →
      (parse (operation ++ "(" ++ s ++ ")" ++ clause) =
        .ok { q with aggregation := some ⟨operation, g⟩ } ↔ Matched s.toList) :=
  ⟨fun _ hf hplain => parse_function_iff hs hfunction haggregation hf hplain,
    fun _ _ _ hoperation hgrouping =>
      parse_aggregation_iff hs hfunction haggregation hoperation hgrouping⟩

/-- A selector with parentheses in a value without quotes. -/
def callInValue : String := "m\x7benv=a(b)\x7d"

/-- What it is read as. -/
def callInValueQuery : Query where
  metric := "m"
  labels := Dictionary.empty.insert "env" "a(b)"

/-- The selector below is read; the call in it is the value of a label. -/
theorem parse_callInValue : parse callInValue = .ok callInValueQuery := by
  have hcall : callOpening? (trim callInValue.toList) = none := by decide +kernel
  have hselector : rangeSelector callInValue.toList = .ok callInValueQuery := by decide +kernel
  have hne : ¬ (trim callInValue.toList).isEmpty = true := by decide +kernel
  rw [parse, if_neg hne, expression_trim, expression_of_none hcall, hselector]

/-- Its parentheses match, so that an aggregation can be applied to it, but not a function. -/
theorem parse_call_callInValue :
    (parse callInValue = .ok callInValueQuery ∧ callInValueQuery.function = none ∧
      callInValueQuery.aggregation = none) ∧
    parse ("rate" ++ "(" ++ callInValue ++ ")") ≠
      .ok { callInValueQuery with function := some "rate" } ∧
    parse ("sum" ++ "(" ++ callInValue ++ ")" ++ " by (env)") =
      .ok { callInValueQuery with aggregation := some ⟨"sum", .on ["env"]⟩ } := by
  obtain ⟨hfunction, haggregation⟩ := parse_call_iff parse_callInValue rfl rfl
  refine ⟨⟨parse_callInValue, rfl, rfl⟩, fun h => ?_, ?_⟩
  · have hhides := ((hfunction "rate" (by decide +kernel) (by decide +kernel)).1 h).1
    have hmem : '(' ∈ Quoted.visible .outside callInValue.toList := by decide +kernel
    exact hhides.not_mem hmem
  · exact (haggregation "sum" " by (env)" _ (by decide +kernel) (by decide +kernel)).2
      (by decide +kernel)

/-- **A function cannot be called with every selector.** -/
theorem not_composable :
    ¬ ∀ (s : String) (q : Query), parse s = .ok q → q.function = none → q.aggregation = none →
      ∀ f : String, isLabelName f.toList = true → Catalog.builtin.isAggregation f = false →
        parse (f ++ "(" ++ s ++ ")") = .ok { q with function := some f } := by
  intro h
  have hrate := h callInValue callInValueQuery parse_callInValue rfl rfl "rate" (by decide +kernel)
    (by decide +kernel)
  have hhides := (parse_function_iff parse_callInValue rfl rfl (f := "rate") (by decide +kernel)
    (by decide +kernel)).1 hrate
  have hmem : '(' ∈ Quoted.visible .outside callInValue.toList := by decide +kernel
  exact hhides.1.not_mem hmem

end Parse

end Telemetry.Query
