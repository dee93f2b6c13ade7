import Telemetry.Proofs.Query.Reading

/-!
Queries are read back from the texts that are written of them.

A call opens at the first parenthesis, which is behind its name, and closes where the parentheses
balance again. What stands between them is the argument of the function, or the query to which the
aggregation is applied. The main statement is `parse_of_renders`: each text of a well-formed query
is read as that query, whatever characters the values hold and wherever there are blanks.
-/

set_option autoImplicit false

namespace Telemetry.Query

open Quoted (Balanced Hides)
open Text (Solid Spaced trim)
open Time (Duration)

/-! ## Calls -/

/-- What stands between the parentheses of a text. -/
theorem take_parentheses (a inner rest : List Char) :
    ((a ++ '(' :: (inner ++ ')' :: rest)).take (a.length + 1 + inner.length)).drop (a.length + 1) =
      inner := by
  have hcut : a ++ '(' :: (inner ++ ')' :: rest) = (a ++ ['(']) ++ inner ++ (')' :: rest) := by
    simp
  have hlength : a.length + 1 + inner.length = ((a ++ ['(']) ++ inner).length := by
    rw [List.length_append, List.length_append, List.length_singleton]
  rw [hcut, hlength, List.take_left]
  simp

/-- What stands behind them. -/
theorem drop_parentheses (a inner rest : List Char) :
    (a ++ '(' :: (inner ++ ')' :: rest)).drop (a.length + 1 + inner.length + 1) = rest := by
  have hcut : a ++ '(' :: (inner ++ ')' :: rest) = ((a ++ ['(']) ++ inner ++ [')']) ++ rest := by
    simp
  have hlength : a.length + 1 + inner.length + 1 = ((a ++ ['(']) ++ inner ++ [')']).length := by
    simp only [List.length_append, List.length_singleton]
  rw [hcut, hlength, List.drop_left]

/-- A call is taken apart at its parentheses. -/
theorem Call.ofText_append {name : String} {a inner : List Char} (rest : List Char)
    (hname : isLabelName name.toList = true) (ha : Spaced [name.toList] a)
    (hinner : Balanced inner) (hlt : a.length < (a ++ '(' :: (inner ++ ')' :: rest)).length) :
    (Call.ofText (a ++ '(' :: (inner ++ ')' :: rest)) a.length hlt).map (·.val) =
      .ok ⟨name.toList, inner, trim rest⟩ := by
  have htoken : ∀ t ∈ [name.toList], IsToken [] t := isToken_singleton hname
  have hsolid : Solid name.toList := solid_of_isLabelName hname
  have hne : name.toList.isEmpty = false := by
    rw [List.isEmpty_eq_false_iff]
    exact hsolid.ne_nil
  have htake : (a ++ '(' :: (inner ++ ')' :: rest)).take a.length = a := by simp
  have hclosing := Quoted.closing?_append (closed_of_spaced ha htoken) hinner rest
  simp only [Call.ofText, htake, ha.trim_single hsolid, hne, hname, hclosing, take_parentheses,
    drop_parentheses, bind, Except.bind, pure, Except.pure, Except.map, Bool.not_true,
    Bool.false_eq_true, if_false]

section Calls

variable {catalog : Catalog} {text : List Char}

/-- A text of a call opens and closes where its parentheses are. -/
theorem exists_call {name : String} {ts us : List (List Char)}
    (hname : isLabelName name.toList = true) (hts : ∀ t ∈ ts ++ us, IsToken signs t)
    (hbalanced : ∀ inner, Spaced ts inner → Balanced inner)
    (h : Spaced (name.toList :: ['('] :: (ts ++ [')'] :: us)) text) :
    ∃ opening inner rest, callOpening? (trim text) = some opening ∧ Spaced ts inner ∧
      Spaced us rest ∧ ∀ hlt, (Call.ofText (trim text) opening hlt).map (·.val) =
        .ok ⟨name.toList, inner, trim rest⟩ := by
  have htoken : ∀ t ∈ [name.toList], IsToken [] t := isToken_singleton hname
  have hsolid : ∀ t ∈ name.toList :: ['('] :: (ts ++ [')'] :: us), Solid t := by
    simp only [List.forall_mem_cons, List.forall_mem_append] at hts ⊢
    exact ⟨solid_of_isLabelName hname, solid_sign (by decide), solid_of_tokens hts.1,
      solid_sign (by decide), solid_of_tokens hts.2⟩
  -- the text is cut at its first parenthesis, before which there is only the name
  obtain ⟨a, b, hcut, hhides, ha, hb⟩ :=
    exists_cut [name.toList] (h.trim hsolid) htoken (by decide) List.not_mem_nil
  obtain ⟨inner, rest, rfl, hinner, hrest⟩ := hb.exists_cons ts
  have hcut : trim text = a ++ '(' :: (inner ++ ')' :: rest) := hcut
  generalize trim text = p at hcut ⊢
  subst hcut
  refine ⟨a.length, inner, rest, ?_, hinner, hrest, fun hlt =>
    Call.ofText_append rest hname ha (hbalanced inner hinner) hlt⟩
  -- before the parenthesis there is the name, so it stands in no braces
  have hbrace : Quoted.find? '{' a = none :=
    (hides_of_spaced ha htoken (by decide) List.not_mem_nil).find?_eq_none
  have htake : (a ++ '(' :: (inner ++ ')' :: rest)).take a.length = a := by simp
  rw [callOpening?, Quoted.find?_append_cons hhides rfl]
  simp only [htake, hbrace, Option.isNone_none, if_true]

variable {opening : Nat} {call : Call} (hopening : callOpening? (trim text) = some opening)
  (hcall : ∀ hlt, (Call.ofText (trim text) opening hlt).map (·.val) = .ok call)

include hopening hcall

/-- What is read of a call depends on whether it is an aggregation. -/
theorem expression_of_call : expression catalog text =
    if catalog.isAggregation (String.ofList call.name) then
      if (trim call.inner).isEmpty then fault .aggregationWithoutArgument (trim text)
      else do
        let query ← expression catalog call.inner
        if query.aggregation.isSome then fault .aggregationNested call.inner
        let grouping ← grouping call.rest
        return { query with aggregation := some ⟨String.ofList call.name, grouping⟩ }
    else call.plain := by
  have hcall := hcall (callOpening?_lt hopening)
  rw [expression]
  split
  next hnone => cases hnone.symm.trans hopening
  next opening' hopening' =>
    cases hopening.symm.trans hopening'
    split
    next e he =>
      rw [he] at hcall
      cases hcall
    next call' hlt hok =>
      rw [hok] at hcall
      cases hcall
      rfl

/-- An aggregation is applied to the query that stands in its parentheses. -/
theorem expression_of_aggregation
    (hname : catalog.isAggregation (String.ofList call.name) = true) {query : Query} {g : Grouping}
    (hne : trim call.inner ≠ []) (hinner : expression catalog call.inner = .ok query)
    (hflat : query.aggregation = none) (hgrouping : grouping call.rest = .ok g) :
    expression catalog text =
      .ok { query with aggregation := some ⟨String.ofList call.name, g⟩ } := by
  have hempty : ¬ (trim call.inner).isEmpty = true := by rwa [List.isEmpty_iff]
  rw [expression_of_call hopening hcall, if_pos hname, if_neg hempty, hinner]
  simp only [bind, Except.bind, hflat, hgrouping, Option.isSome_none, Bool.false_eq_true, if_false]
  rfl

end Calls

/-- Without a parenthesis outside of quotes, a text is no call. -/
theorem expression_of_no_call {catalog : Catalog} {text : List Char}
    (h : Hides '(' (trim text)) : expression catalog text = rangeSelector (trim text) := by
  have hnone : callOpening? (trim text) = none := by rw [callOpening?, h.find?_eq_none]
  rw [expression]
  split
  next => rfl
  next opening hopening => cases hnone.symm.trans hopening

/-- What is read of a call of a function depends on what stands in its parentheses alone. -/
theorem expression_of_spaced_call {catalog : Catalog} {f : String} {ts : List (List Char)}
    {text : List Char} (hf : isLabelName f.toList = true)
    (hplain : catalog.isAggregation f = false) (hts : ∀ t ∈ ts, IsToken selectorSigns t)
    (h : Spaced (f.toList :: ['('] :: (ts ++ [[')']])) text) :
    ∃ inner, Spaced ts inner ∧ expression catalog text = do
      let query ← if (trim inner).isEmpty then pure {} else rangeSelector inner
      return { query with function := some f } := by
  obtain ⟨opening, inner, rest, hopening, hinner, hrest, hcall⟩ := exists_call hf
    (by simpa using fun t ht => (hts t ht).mono (by decide))
    (fun inner hinner => balanced_of_spaced hinner hts) h
  have hrest : trim rest = [] := Text.trim_of_blanks hrest.blanks
  have hflat : Quoted.find? '(' inner = none :=
    (hides_of_spaced hinner hts (by decide) (by decide)).find?_eq_none
  refine ⟨inner, hinner, ?_⟩
  rw [expression_of_call hopening hcall]
  simp only [String.ofList_toList, hplain, Bool.false_eq_true, if_false, Call.plain, hrest, hflat]
  rfl

/-- The parentheses of a call of a function are balanced. -/
theorem balanced_of_spaced_call {f : String} {ts : List (List Char)} {text : List Char}
    (hf : isLabelName f.toList = true) (hts : ∀ t ∈ ts, IsToken selectorSigns t)
    (h : Spaced (f.toList :: ['('] :: (ts ++ [[')']])) text) : Balanced text := by
  obtain ⟨a, b, rfl, ha, hb⟩ := Spaced.exists_cons [f.toList] h
  obtain ⟨inner, rest, rfl, hinner, hrest⟩ := hb.exists_cons ts
  have hname : Balanced a := balanced_of_spaced ha (isToken_singleton hf)
  have hparentheses := (balanced_of_spaced hinner hts).parentheses
  have hblanks : Balanced rest := balanced_of_spaced hrest (by simp)
  simpa using hname.append (hparentheses.append hblanks)

/-! ## Queries -/

/-- The names of the aggregations are names. -/
theorem isLabelName_of_isAggregation {name : String}
    (h : Catalog.builtin.isAggregation name = true) : isLabelName name.toList = true := by
  have hall : ∀ e ∈ Catalog.builtin.entries, isLabelName e.1.toList = true := by decide +kernel
  rw [Catalog.isAggregation] at h
  cases hget : Catalog.builtin.get? name with
  | none =>
    rw [hget] at h
    cases h
  | some d => exact hall (name, d) (Dictionary.get?_eq_some_iff.1 hget)

section WellFormed

variable {query : Query} {ts : List (List Char)} {text : List Char} (hq : query.WellFormed)

include hq

section Selector

variable (hmetric : isMetricName query.metric.toList = true) (h : SelectorTokens query ts)

include hmetric h

/-- The tokens of a selector are tokens. -/
theorem isToken_selectorTokens : ∀ t ∈ ts, IsToken selectorSigns t := by
  cases h with
  | mk hlabels hrange =>
    refine List.forall_mem_cons.2 ⟨.of_isMetricName hmetric, List.forall_mem_append.2
      ⟨fun t ht => ?_, fun t ht => ?_⟩⟩
    · exact (isToken_labelsTokens hlabels hq.labels t ht).mono (by decide)
    · exact (isToken_rangeTokens hrange t ht).mono (by decide)

/-- A selector is read back with its range. -/
theorem rangeSelector_of_tokens (hspaced : Spaced ts text) : rangeSelector text =
    .ok { metric := query.metric, labels := query.labels, range := query.range } := by
  cases h with
  | mk hlabels hrange =>
    cases hrange with
    | omitted hnone =>
      rw [List.append_nil] at hspaced
      rw [hnone, rangeSelector_of_spaced hmetric hq.labels hlabels hspaced]
    | @seconds ds n hds hsome =>
      obtain ⟨m, hpos, hm, heq⟩ := hq.range _ hsome
      have hnanos : n * 1000000000 = m * 1000000000 := congrArg Duration.nanos heq
      obtain rfl : n = m := by omega
      rw [hsome, rangeSelector_of_spaced_seconds hmetric hq.labels hlabels hds hpos hm hspaced]

end Selector

/-- A query without a function has the name of a metric. -/
theorem isMetricName_of_function_eq_none (h : query.function = none) :
    isMetricName query.metric.toList = true := by
  rcases hq.metric with hmetric | ⟨-, hfunction, -⟩
  · exact hmetric
  · rw [h] at hfunction
    cases hfunction

theorem isMetricName_of_ne_empty (h : query.metric ≠ "") :
    isMetricName query.metric.toList = true :=
  hq.metric.resolve_right fun hbare => h hbare.1

/-- The tokens of a call are tokens. -/
theorem isToken_callTokens (h : CallTokens query ts) : ∀ t ∈ ts, IsToken signs t := by
  cases h with
  | selector hfunction h =>
    exact fun t ht => (isToken_selectorTokens hq (isMetricName_of_function_eq_none hq hfunction) h
      t ht).mono (by decide)
  | function hfunction hmetric h =>
    have hselector := isToken_selectorTokens hq (isMetricName_of_ne_empty hq hmetric) h
    simp only [List.forall_mem_cons, List.forall_mem_append]
    exact ⟨.of_isLabelName (hq.function _ hfunction).1, .sign (by decide) (by decide),
      fun t ht => (hselector t ht).mono (by decide), .sign (by decide) (by decide), by simp⟩
  | bare hfunction =>
    simp only [List.forall_mem_cons]
    exact ⟨.of_isLabelName (hq.function _ hfunction).1, .sign (by decide) (by decide),
      .sign (by decide) (by decide), by simp⟩

omit hq in
theorem SelectorTokens.ne_nil (h : SelectorTokens query ts) : ts ≠ [] := by
  cases h
  exact List.cons_ne_nil _ _

omit hq in
theorem CallTokens.ne_nil (h : CallTokens query ts) : ts ≠ [] := by
  cases h with
  | selector _ h => exact h.ne_nil
  | function => exact List.cons_ne_nil _ _
  | bare => exact List.cons_ne_nil _ _

/-- Parentheses balance in what an aggregation may be applied to. -/
theorem balanced_of_callTokens (h : CallTokens query ts) (hspaced : Spaced ts text) :
    Balanced text := by
  cases h with
  | selector hfunction h =>
    exact balanced_of_spaced hspaced
      (isToken_selectorTokens hq (isMetricName_of_function_eq_none hq hfunction) h)
  | function hfunction hmetric h =>
    exact balanced_of_spaced_call (hq.function _ hfunction).1
      (isToken_selectorTokens hq (isMetricName_of_ne_empty hq hmetric) h) hspaced
  | bare hfunction =>
    have hnothing : ∀ t ∈ [], IsToken selectorSigns t := nofun
    exact balanced_of_spaced_call (hq.function _ hfunction).1 hnothing hspaced

/-- A query without an aggregation is read back. -/
theorem expression_of_callTokens (h : CallTokens query ts) (hspaced : Spaced ts text) :
    expression Catalog.builtin text = .ok { query with aggregation := none } := by
  -- three forms: a selector, a function of one, and a function of nothing
  cases h with
  | selector hfunction h =>
    have hmetric := isMetricName_of_function_eq_none hq hfunction
    have htokens := isToken_selectorTokens hq hmetric h
    have htrim := hspaced.trim (solid_of_tokens htokens)
    rw [expression_of_no_call (hides_of_spaced htrim htokens (by decide) (by decide)),
      rangeSelector_of_tokens hq hmetric h htrim, hfunction]
  | @function f ts hfunction hmetric h =>
    have hmetric := isMetricName_of_ne_empty hq hmetric
    have htokens := isToken_selectorTokens hq hmetric h
    obtain ⟨hf, hplain⟩ := hq.function f hfunction
    obtain ⟨inner, hinner, hcall⟩ := expression_of_spaced_call hf hplain htokens hspaced
    have hne : (trim inner).isEmpty = false := by
      rw [List.isEmpty_eq_false_iff]
      exact trim_ne_nil_of_spaced hinner htokens h.ne_nil
    simp only [hcall, hne, Bool.false_eq_true, if_false,
      rangeSelector_of_tokens hq hmetric h hinner, hfunction]
    rfl
  | @bare f hfunction hmetric =>
    obtain ⟨hf, hplain⟩ := hq.function f hfunction
    have hnothing : ∀ t ∈ [], IsToken selectorSigns t := nofun
    obtain ⟨inner, hinner, hcall⟩ := expression_of_spaced_call hf hplain hnothing hspaced
    have hblank : trim inner = [] := Text.trim_of_blanks hinner.blanks
    -- such a query has nothing but its function
    obtain ⟨-, -, hlabels, hrange⟩ := hq.metric.resolve_left (by rw [hmetric]; decide)
    simp only [hcall, hblank, List.isEmpty_nil, if_true, hmetric, hlabels, hrange, hfunction]
    rfl

end WellFormed

/-- The tokens of a grouping are tokens. -/
theorem isToken_groupingTokens {g : Grouping}
    (hnames : ∀ name ∈ g.names, isLabelName name.toList = true) :
    ∀ t ∈ groupingTokens g, IsToken signs t := by
  have hclause {keyword : String} {names : List String}
      (hkeyword : isLabelName keyword.toList = true)
      (hnames : ∀ name ∈ names, isLabelName name.toList = true) :
      ∀ t ∈ clauseTokens keyword names, IsToken signs t := by
    simp only [clauseTokens, List.forall_mem_cons, List.forall_mem_append]
    exact ⟨.of_isLabelName hkeyword, .sign (by decide) (by decide),
      fun t ht => (isToken_names hnames t ht).mono (by decide), .sign (by decide) (by decide),
      by simp⟩
  cases g with
  | none => simp [groupingTokens]
  | on names => exact hclause (by decide) hnames
  | without names => exact hclause (by decide) hnames

/-- An aggregation of a query is read back, with its grouping. -/
theorem expression_of_aggregated {query : Query} (hq : query.WellFormed) {a : Aggregation}
    (ha : query.aggregation = some a) {ts : List (List Char)} (h : CallTokens query ts)
    {text : List Char}
    (hspaced : Spaced (a.operation.toList :: ['('] :: (ts ++ [')'] :: groupingTokens a.grouping))
      text) : expression Catalog.builtin text = .ok query := by
  obtain ⟨hoperation, hnames⟩ := hq.aggregation a ha
  have htokens := isToken_callTokens hq h
  obtain ⟨opening, inner, rest, hopening, hinner, hrest, hcall⟩ :=
    exists_call (isLabelName_of_isAggregation hoperation)
      (List.forall_mem_append.2 ⟨htokens, isToken_groupingTokens hnames⟩)
      (fun inner hinner => balanced_of_callTokens hq h hinner) hspaced
  rw [expression_of_aggregation hopening hcall (by rwa [String.ofList_toList])
    (trim_ne_nil_of_spaced hinner htokens h.ne_nil) (expression_of_callTokens hq h hinner) rfl
    (grouping_of_spaced hnames hrest), String.ofList_toList, ← ha]

/-- The tokens of a query are tokens. -/
theorem isToken_queryTokens {query : Query} (hq : query.WellFormed) {ts : List (List Char)}
    (h : QueryTokens query ts) : ∀ t ∈ ts, IsToken signs t := by
  cases h with
  | plain _ h => exact isToken_callTokens hq h
  | aggregated ha h =>
    obtain ⟨hoperation, hnames⟩ := hq.aggregation _ ha
    simp only [List.forall_mem_cons, List.forall_mem_append]
    exact ⟨.of_isLabelName (isLabelName_of_isAggregation hoperation),
      .sign (by decide) (by decide), isToken_callTokens hq h, .sign (by decide) (by decide),
      isToken_groupingTokens hnames⟩

theorem QueryTokens.ne_nil {query : Query} {ts : List (List Char)} (h : QueryTokens query ts) :
    ts ≠ [] := by
  cases h with
  | plain _ h => exact h.ne_nil
  | aggregated => exact List.cons_ne_nil _ _

/-- The blanks around a text of tokens are nothing to the reader. -/
theorem parse_of_spaced {text : String} {ts : List (List Char)} (h : Spaced ts text.toList)
    (hts : ∀ t ∈ ts, IsToken signs t) (hne : ts ≠ []) :
    parse text = expression Catalog.builtin (trim text.toList) ∧ Spaced ts (trim text.toList) := by
  have htrim := trim_ne_nil_of_spaced h hts hne
  refine ⟨?_, h.trim (solid_of_tokens hts)⟩
  rw [parse, if_neg (by rwa [List.isEmpty_iff])]

/-- **Each rendering of a well-formed query is read as that query.** -/
theorem parse_of_renders {query : Query} (hq : query.WellFormed) {text : String}
    (h : query.Renders text) : parse text = .ok query := by
  obtain ⟨ts, hts, hspaced⟩ := h
  obtain ⟨hparse, htrim⟩ := parse_of_spaced hspaced (isToken_queryTokens hq hts) hts.ne_nil
  rw [hparse]
  cases hts with
  | plain haggregation h => rw [expression_of_callTokens hq h htrim, ← haggregation]
  | aggregated ha h => exact expression_of_aggregated hq ha h htrim

/-- A query with each of its parts, and with delimiters in its values. -/
def sumOfRate : Query where
  metric := "http:requests"
  labels := Dictionary.ofList [("path", "a\"b)\\\x7d"), ("zone", "it's, [x]")]
  function := some "rate"
  range := some (.ofSeconds 300)
  aggregation := some ⟨"sum", .on ["zone", "path"]⟩

/-- One of its texts, with the labels in another order, both quotes, and blanks here and there. -/
def sumOfRateText : String :=
  " sum(rate ( http:requests\x7bzone=\"it's, [x]\" ,\tpath = 'a\"b)\\\\\x7d' \x7d[ 300 s])\n)" ++
    "by (zone,path) "

/-- The query below is well-formed. -/
theorem wellFormed_sumOfRate : sumOfRate.WellFormed where
  metric := by decide +kernel
  labels := by decide +kernel
  function := by decide +kernel
  range r hr := ⟨300, by decide, by decide, (Option.some.inj hr).symm⟩
  aggregation := by decide +kernel

theorem renders_sumOfRate : sumOfRate.Renders sumOfRateText := by
  have hselector : SelectorTokens sumOfRate _ :=
    .mk (.braces [('"', "zone", "it's, [x]"), ('\'', "path", "a\"b)\\\x7d")] (by decide)
      (by decide +kernel)) (.seconds (Text.Integer.isDecimal_toString 300) rfl)
  have hlayout := Spaced.layout ([(" ", "sum"), ("", "("), ("", "rate"), (" ", "("),
    (" ", "http:requests"), ("", "\x7b"), ("", "zone"), ("", "="), ("", "\"it's, [x]\""),
    (" ", ","), ("\t", "path"), (" ", "="), (" ", "'a\"b)\\\\\x7d'"), (" ", "\x7d"), ("", "["),
    (" ", "300"), (" ", "s"), ("", "]"), ("", ")"), ("\n", ")"), ("", "by"), (" ", "("),
    ("", "zone"), ("", ","), ("", "path"), ("", ")")].map fun p => (p.1.toList, p.2.toList)) [' ']
    (by decide) (by decide)
  exact ⟨_, .aggregated rfl (.function rfl (by decide) hselector), hlayout⟩

/-- Reading it gives the query back. -/
theorem parse_sumOfRateText : parse sumOfRateText = .ok sumOfRate :=
  parse_of_renders wellFormed_sumOfRate renders_sumOfRate

end Telemetry.Query
