import Telemetry.Proofs.Query.Composition
import Telemetry.Proofs.Query.Faults
import Telemetry.Proofs.Query.Offsets

/-!
What comes out of the reader of queries.

A text is read as a query or refused with an error. The query is a sound one: its names are names,
its function is no aggregation and its aggregation is one, and its range is positive (`Sound`). The
error points into the text. Only a range that exhausts the seconds has neither (`parse_outcome`).
-/

set_option autoImplicit false

namespace Telemetry.Query

open Fallible
open Text (trim)

/-! ## What is read is sound -/

/-- Whether the names of a query are names, its function is no aggregation, its aggregation is one,
and its range is positive. A function of nothing has neither a metric nor labels nor a range. -/
structure Sound (query : Query) : Prop where
  metric : isMetricName query.metric.toList = true ∨
    (query.metric = "" ∧ query.function.isSome = true ∧ query.labels = Dictionary.empty ∧
      query.range = none)
  labels : ∀ k ∈ query.labels.keys, isLabelName k.toList = true
  function : ∀ f ∈ query.function,
    isLabelName f.toList = true ∧ Catalog.builtin.isAggregation f = false
  range : ∀ r ∈ query.range, 0 < r.nanos
  aggregation : ∀ a ∈ query.aggregation, Catalog.builtin.isAggregation a.operation = true ∧
    ∀ name ∈ a.grouping.names, isLabelName name.toList = true

/-- A constraint adds a label with a name. -/
theorem forall_keys_of_constraint {labels labels' : Labels} {pair : List Char}
    (hlabels : ∀ k ∈ labels.keys, isLabelName k.toList = true)
    (h : constraint labels pair = .ok labels') :
    ∀ k ∈ labels'.keys, isLabelName k.toList = true := by
  rw [constraint] at h
  split at h
  · cases h
    exact hlabels
  -- a label is added only after its name has been checked
  · cases heq : Quoted.find? '=' (trim pair) with
    | none =>
      rw [heq] at h
      cases h
    | some eq =>
      simp only [heq, fault_bind, ite_fault_eq_ok_iff, Bool.not_eq_true', Bool.not_eq_false] at h
      obtain ⟨-, hkey, h⟩ := h
      obtain ⟨value, -, h⟩ := bind_eq_ok h
      simp only [ite_fault_eq_ok_iff] at h
      obtain rfl := Except.ok.inj h.2
      intro k hk
      rcases Dictionary.mem_keys_insert.1 hk with rfl | hk
      · rwa [String.toList_ofList]
      · exact hlabels k hk

/-- All labels that are constrained have names of labels. -/
theorem forall_keys_of_constraints {labels : Labels} {body : List Char}
    (h : constraints body = .ok labels) : ∀ k ∈ labels.keys, isLabelName k.toList = true := by
  refine foldlM_ok_invariant
    (p := fun labels : Labels => ∀ k ∈ labels.keys, isLabelName k.toList = true)
    (fun _ _ _ => forall_keys_of_constraint) h ?_
  simp [Dictionary.keys, Dictionary.empty]

/-- What is read as a selector has neither a function nor an aggregation. -/
theorem sound_of_selector {text : List Char} {q : Query} (h : selector text = .ok q) :
    q.Sound ∧ q.function = none ∧ q.range = none ∧ q.aggregation = none := by
  obtain ⟨name, labels, rfl, hname, hlabels⟩ := of_selector_eq_ok h
  refine ⟨⟨.inl ?_, ?_, nofun, nofun, nofun⟩, rfl, rfl, rfl⟩
  · rwa [String.toList_ofList]
  · rcases hlabels with ⟨-, rfl⟩ | ⟨a, body, -, -, -, -, hbody⟩
    · simp [Dictionary.keys, Dictionary.empty]
    · exact forall_keys_of_constraints hbody

/-- A range selector that can be read is sound, and has neither function nor aggregation. -/
theorem sound_of_rangeSelector {text : List Char} {q : Query} (h : rangeSelector text = .ok q) :
    q.Sound ∧ q.function = none ∧ q.aggregation = none := by
  rcases of_rangeSelector_eq_ok h with h | ⟨a, inner, range, query, -, -, hpos, hselector, rfl⟩
  · obtain ⟨hq, hfunction, -, haggregation⟩ := sound_of_selector h
    exact ⟨hq, hfunction, haggregation⟩
  · obtain ⟨hquery, hfunction, -, haggregation⟩ := sound_of_selector hselector
    refine ⟨⟨?_, hquery.labels, hquery.function, fun r hr => ?_, hquery.aggregation⟩, hfunction,
      haggregation⟩
    · refine .inl (hquery.metric.resolve_right fun hbare => ?_)
      rw [hfunction] at hbare
      cases hbare.2.1
    · obtain rfl := Option.some.inj hr
      exact hpos

/-- The names that are read are names of labels. -/
theorem isLabelName_of_labelNames {text : List Char} {names : List String}
    (h : labelNames text = .ok names) : ∀ name ∈ names, isLabelName name.toList = true := by
  intro name hname
  obtain ⟨piece, -, hpiece⟩ := exists_of_mem_mapM h hname
  split at hpiece
  next hvalid =>
    obtain rfl := Except.ok.inj hpiece
    rwa [String.toList_ofList]
  next => cases hpiece

theorem isLabelName_of_groupingLabels {tail : List Char} {names : List String}
    (h : groupingLabels tail = .ok names) : ∀ name ∈ names, isLabelName name.toList = true := by
  simp only [groupingLabels, fault_bind, ite_fault_eq_ok_iff] at h
  cases hclose : Quoted.closing? tail 0 with
  | none =>
    rw [hclose] at h
    cases h.2
  | some close =>
    simp only [hclose, ite_fault_eq_ok_iff] at h
    exact isLabelName_of_labelNames h.2.2

theorem isLabelName_of_grouping {text : List Char} {g : Grouping} (h : grouping text = .ok g) :
    ∀ name ∈ g.names, isLabelName name.toList = true := by
  rw [grouping_eq] at h
  split at h
  · cases h
    simp [Grouping.names]
  · split at h
    next =>
      obtain ⟨names, hnames, rfl⟩ := map_eq_ok h
      exact isLabelName_of_groupingLabels hnames
    next =>
      split at h
      next =>
        obtain ⟨names, hnames, rfl⟩ := map_eq_ok h
        exact isLabelName_of_groupingLabels hnames
      next => cases h

/-- A call of a function that is no aggregation is sound. -/
theorem sound_of_plain {call : Call} {q : Query} (hname : isLabelName call.name = true)
    (hplain : Catalog.builtin.isAggregation (String.ofList call.name) = false)
    (h : call.plain = .ok q) : q.Sound := by
  have hfunction : ∀ f ∈ some (String.ofList call.name),
      isLabelName f.toList = true ∧ Catalog.builtin.isAggregation f = false := by
    intro f hf
    obtain rfl := Option.some.inj hf
    exact ⟨by rwa [String.toList_ofList], hplain⟩
  obtain ⟨-, -, query, hquery, rfl⟩ := of_plain_eq_ok h
  split at hquery
  · cases hquery
    exact ⟨.inr ⟨rfl, rfl, rfl, rfl⟩, by simp [Dictionary.keys, Dictionary.empty], hfunction, nofun,
      nofun⟩
  · obtain ⟨hsound, hnone, -⟩ := sound_of_rangeSelector hquery
    refine ⟨.inl (hsound.metric.resolve_right fun hbare => ?_), hsound.labels, hfunction,
      hsound.range, hsound.aggregation⟩
    rw [hnone] at hbare
    cases hbare.2.1

/-- An expression that can be read is sound. -/
theorem sound_of_expression {text : List Char} {q : Query}
    (h : expression Catalog.builtin text = .ok q) : q.Sound := by
  -- along the recursion of the reader: only the argument of an aggregation is read in turn
  generalize hcatalog : Catalog.builtin = catalog at h
  -- by the recursion of the reader, which hands the query of an argument on to the aggregation
  -- around it
  fun_induction expression catalog text generalizing q with
  | case1 text => exact (sound_of_rangeSelector h).1
  | case2 => cases h
  | case3 => cases h
  | case4 text opening hopening call hlt hcall hname _ ih =>
    obtain ⟨query, hquery, h⟩ := bind_eq_ok h
    simp only [fault_bind, ite_fault_eq_ok_iff] at h
    obtain ⟨g, hg, h⟩ := bind_eq_ok h.2
    obtain rfl := Except.ok.inj h
    obtain ⟨hmetric, hlabels, hfunction, hrange, -⟩ := ih hquery
    refine ⟨hmetric, hlabels, hfunction, hrange, fun a ha => ?_⟩
    obtain rfl := Option.some.inj ha
    exact ⟨hcatalog ▸ hname, isLabelName_of_grouping hg⟩
  | case5 text opening hopening call hlt hcall hname =>
    exact sound_of_plain (parts_of_ofText hcall).1
      (hcatalog ▸ Bool.eq_false_iff.2 hname) h

/-- **Every query that is read is sound.** -/
theorem sound_of_parse {text : String} {q : Query} (h : parse text = .ok q) : q.Sound :=
  sound_of_expression (of_parse_eq_ok h)

/-! ## The outcomes -/

/-- **A text is read as a sound query, or refused with a fault that points into it, unless its range
exhausts the seconds.** No slice that is taken meanwhile is out of bounds or splits a character. -/
theorem parse_outcome (text : String) :
    ((∃ q, parse text = .ok q ∧ q.Sound) ∨
      (∃ cause fragment, parse text = .error (.query cause fragment) ∧
        fragment.toList <:+: text.toList) ∨
      parse text = .error .beyondRange) ∧
    (parse text = .error .beyondRange ↔
      ∃ range, RangeOf Catalog.builtin (trim text.toList) range ∧ Exhausts range) ∧
    Offsets.parse text = Offsets.lift (parse text) ∧ Offsets.parse text ≠ .error .slice := by
  have hoffsets := Offsets.parse_eq text
  have hfails := parse_failsIn text
  refine ⟨?_, parse_eq_beyondRange_iff, hoffsets, ?_⟩
  · cases hparse : parse text with
    | ok q => exact .inl ⟨q, rfl, sound_of_parse hparse⟩
    | error e =>
      rw [hparse] at hfails
      rcases (onlyFails_error e).1 hfails with hpoints | rfl
      · cases e with
        | query cause fragment => exact .inr (.inl ⟨cause, fragment, rfl, hpoints⟩)
        | _ => cases hpoints
      · exact .inr (.inr rfl)
  · rw [hoffsets]
    cases parse text <;> nofun

/-- A selector whose range has more seconds than there are: the nanoseconds make up another one. -/
def exhaustingRange : String := "x[18446744073709551615s 1000000000ns]"

/-- **There are texts that are neither read nor refused with a fault.** -/
theorem not_read_or_refused :
    ¬ ∀ text : String, (∃ q, parse text = .ok q) ∨
      ∃ cause fragment, parse text = .error (.query cause fragment) := by
  have hcall : callOpening? (trim exhaustingRange.toList) = none := by decide +kernel
  have hselector : rangeSelector exhaustingRange.toList = .error .beyondRange := by decide +kernel
  have hne : ¬ (trim exhaustingRange.toList).isEmpty = true := by decide +kernel
  have hparse : parse exhaustingRange = .error .beyondRange := by
    rw [parse, if_neg hne, expression_trim, expression_of_none hcall, hselector]
  intro h
  rcases h exhaustingRange with ⟨q, hq⟩ | ⟨cause, fragment, hfault⟩
  · cases hq.symm.trans hparse
  · cases hfault.symm.trans hparse

end Telemetry.Query
