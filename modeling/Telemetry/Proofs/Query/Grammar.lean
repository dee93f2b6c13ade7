import Telemetry.Proofs.Query.Tokens
import Telemetry.Proofs.Text.Integer

/-!
Queries as they are written.

A query may be written in many ways: each value in one or the other quotes, the labels in any order,
braces with nothing in them or none, and blanks between any two tokens. `Renders` is the relation of
a query to all of these texts. It is put together from the tokens of the parts, along the grammar of
the reader.
-/

set_option autoImplicit false

namespace Telemetry

/-- The names in a grouping. -/
def Grouping.names : Grouping → List String
  | .none => []
  | .on names | .without names => names

namespace Query

open Quoted (isQuote)
open Text (Spaced)
open Text.Integer (IsDecimal maxUnsigned64)
open Time (Duration)

/-! ## The grammar -/

/-- The tokens of a label with its value, which stands in quotes `q`. -/
def matcherTokens (q : Char) (e : String × String) : List (List Char) :=
  [e.1.toList, ['='], quoted q e.2.toList]

/-- The tokens of some labels, each with its own quotes, and commas between them. -/
def matchersTokens (ms : List (Char × (String × String))) : List (List Char) :=
  [[',']].intercalate (ms.map fun m => matcherTokens m.1 m.2)

/-- The tokens of labels in braces. Without labels, the braces may be left out. -/
inductive LabelsTokens (labels : Labels) : List (List Char) → Prop
  | omitted (h : labels.entries = []) : LabelsTokens labels []
  | braces (ms : List (Char × (String × String))) (hquotes : ∀ m ∈ ms, isQuote m.1 = true)
      (h : (ms.map (·.2)).Perm labels.entries) :
      LabelsTokens labels (['{'] :: (matchersTokens ms ++ [['}']]))

/-- The tokens of a range, a whole number of seconds. -/
inductive RangeTokens (range : Option Duration) : List (List Char) → Prop
  | omitted (h : range = none) : RangeTokens range []
  | seconds {ds : List Char} {n : Nat} (hds : IsDecimal ds n) (h : range = some (.ofSeconds n)) :
    RangeTokens range [['['], ds, ['s'], [']']]

/-- The tokens of a selector, with the range behind it. -/
inductive SelectorTokens (query : Query) : List (List Char) → Prop
  | mk {ls rs : List (List Char)} (hlabels : LabelsTokens query.labels ls)
      (hrange : RangeTokens query.range rs) :
      SelectorTokens query (query.metric.toList :: (ls ++ rs))

/-- The tokens of a query without its aggregation: a selector, a function of one, or a function of
nothing. -/
inductive CallTokens (query : Query) : List (List Char) → Prop
  | selector {ts : List (List Char)} (hfunction : query.function = none)
      (h : SelectorTokens query ts) : CallTokens query ts
  | function {f : String} {ts : List (List Char)} (hfunction : query.function = some f)
      (hmetric : query.metric ≠ "") (h : SelectorTokens query ts) :
      CallTokens query (f.toList :: ['('] :: (ts ++ [[')']]))
  | bare {f : String} (hfunction : query.function = some f) (hmetric : query.metric = "") :
      CallTokens query [f.toList, ['('], [')']]

/-- The tokens of names, with commas between them. -/
def namesTokens (names : List String) : List (List Char) :=
  [[',']].intercalate (names.map fun n => [n.toList])

/-- The tokens of names in parentheses, behind a keyword. -/
def clauseTokens (keyword : String) (names : List String) : List (List Char) :=
  keyword.toList :: ['('] :: (namesTokens names ++ [[')']])

/-- The tokens of a grouping. -/
def groupingTokens : Grouping → List (List Char)
  | .none => []
  | .on names => clauseTokens "by" names
  | .without names => clauseTokens "without" names

/-- The tokens of a query. -/
inductive QueryTokens (query : Query) : List (List Char) → Prop
  | plain {ts : List (List Char)} (haggregation : query.aggregation = none)
      (h : CallTokens query ts) : QueryTokens query ts
  | aggregated {a : Aggregation} {ts : List (List Char)}
      (haggregation : query.aggregation = some a) (h : CallTokens query ts) :
      QueryTokens query (a.operation.toList :: ['('] :: (ts ++ [')'] :: groupingTokens a.grouping))

/-- Whether a text is a way to write a query: its tokens, with any blanks around them. -/
def Renders (query : Query) (text : String) : Prop :=
  ∃ ts, QueryTokens query ts ∧ Spaced ts text.toList

/-- Whether a query is one of the language: its names are names, the function is no aggregation and
the aggregation is one, and the range is a positive number of seconds. A function of nothing has
neither a metric nor labels nor a range. -/
structure WellFormed (query : Query) : Prop where
  metric : isMetricName query.metric.toList = true ∨
    (query.metric = "" ∧ query.function.isSome = true ∧ query.labels = Dictionary.empty ∧
      query.range = none)
  labels : ∀ k ∈ query.labels.keys, isLabelName k.toList = true
  function : ∀ f ∈ query.function,
    isLabelName f.toList = true ∧ Catalog.builtin.isAggregation f = false
  range : ∀ r ∈ query.range, ∃ n, 0 < n ∧ n ≤ maxUnsigned64 ∧ r = .ofSeconds n
  aggregation : ∀ a ∈ query.aggregation, Catalog.builtin.isAggregation a.operation = true ∧
    ∀ name ∈ a.grouping.names, isLabelName name.toList = true

/-! ## Every query has a text

The grammar allows many texts for a query, and at least one for each query that is well formed. -/

/-- Labels may be written in their own order, in double quotes. -/
theorem labelsTokens_doubleQuotes (labels : Labels) : LabelsTokens labels
    (['{'] :: (matchersTokens (labels.entries.map fun e => ('"', e)) ++ [['}']])) := by
  refine .braces _ (fun m hm => ?_) ?_
  · obtain ⟨e, -, rfl⟩ := List.mem_map.1 hm
    rfl
  · rw [List.map_map]
    exact .of_eq (List.map_id _)

/-- A query that is well-formed can be written as a selector. -/
theorem WellFormed.exists_selectorTokens {query : Query} (hq : query.WellFormed) :
    ∃ ts, SelectorTokens query ts := by
  cases hrange : query.range with
  | none => exact ⟨_, .mk (labelsTokens_doubleQuotes _) (.omitted hrange)⟩
  | some r =>
    obtain ⟨n, -, -, rfl⟩ := hq.range r hrange
    exact ⟨_, .mk (labelsTokens_doubleQuotes _)
      (.seconds (Text.Integer.isDecimal_toString n) hrange)⟩

theorem WellFormed.exists_callTokens {query : Query} (hq : query.WellFormed) :
    ∃ ts, CallTokens query ts := by
  obtain ⟨ts, hts⟩ := hq.exists_selectorTokens
  cases hfunction : query.function with
  | none => exact ⟨ts, .selector hfunction hts⟩
  | some f =>
    by_cases hmetric : query.metric = ""
    · exact ⟨_, .bare hfunction hmetric⟩
    · exact ⟨_, .function hfunction hmetric hts⟩

/-- A well-formed query can be written. -/
theorem WellFormed.exists_renders {query : Query} (hq : query.WellFormed) :
    ∃ text, query.Renders text := by
  have hwrite {ts : List (List Char)} (h : QueryTokens query ts) : ∃ text, query.Renders text :=
    ⟨String.ofList ts.flatten, ts, h, by
      rw [String.toList_ofList]
      exact .flatten ts⟩
  obtain ⟨ts, hts⟩ := hq.exists_callTokens
  cases haggregation : query.aggregation with
  | none => exact hwrite (.plain haggregation hts)
  | some a => exact hwrite (.aggregated haggregation hts)

end Query

end Telemetry
