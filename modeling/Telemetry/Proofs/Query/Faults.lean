import Telemetry.Proofs.Query.Fragments

/-!
What can go wrong while a query is read and checked.

Every part of the reader refuses a text with a fault that points into it. There is one exception:
the terms of a duration can exhaust the seconds, and then their sum has no result (`Exhausts`). A
query holds at most one duration, its range, and where that stands is settled by the calls around it
(`RangeOf`). So the reader has no result exactly for a query with a range that exhausts the seconds
(`parse_eq_beyondRange_iff`), and all other errors are faults (`parse_fails`).
-/

set_option autoImplicit false

namespace Telemetry

/-! ## Errors of requests -/

/-- Whether an error comes from what was requested: it is the client's own doing, or the arithmetic
that the request leads to has no result. -/
def Error.IsRequestFault (e : Error) : Prop := e.isClientFault = true ∨ e = .beyondRange

@[simp] theorem Error.isRequestFault_invalidArgument (fault : ArgumentFault) :
    IsRequestFault (.invalidArgument fault) := .inl rfl

@[simp] theorem Error.isRequestFault_unsupportedFunction (name : String) :
    IsRequestFault (.unsupportedFunction name) := .inl rfl

@[simp] theorem Error.isRequestFault_unsupported (fault : UnsupportedFault) :
    IsRequestFault (.unsupported fault) := .inl rfl

/-- A length of time beyond the range of the arithmetic comes from the text as well, though it is
a panic. -/
@[simp] theorem Error.isRequestFault_beyondRange : IsRequestFault .beyondRange := .inr rfl

namespace Query

open Fallible
open Text (trim)
open Time (Duration)

/-! ## Durations -/

/-- Whether the seconds are exhausted while a text is read as a duration. -/
def Exhausts (text : List Char) : Prop :=
  plainDuration? (trim text) = none ∧ Duration.read (trim text) = .error .carry

/-- Reading a length of time goes beyond the range exactly on the texts that exhaust it. -/
theorem duration_eq_beyondRange_iff {text : List Char} :
    duration text = .error .beyondRange ↔ Exhausts text := by
  rw [duration, Exhausts]
  split
  next hempty =>
    have hread : Duration.read [] = .error .empty := rfl
    rw [List.isEmpty_iff.1 hempty, hread]
    simp
  next =>
    -- a plain number of seconds has an answer of its own; only the general reader can exhaust
    cases hplain : plainDuration? (trim text) with
    | some plain => cases plain <;> simp
    | none =>
      cases hread : Duration.read (trim text) with
      | ok d => simp
      | error f => cases f <;> simp

/-! ## Ranges -/

/-- A selector has no length of time, so reading it never goes beyond the range. -/
theorem selector_ne_beyondRange (text : List Char) : selector text ≠ .error .beyondRange :=
  (selector_faultsIn text).ne_error id

/-- What stands in the brackets at the end of a text. -/
def bracketed? (text : List Char) : Option (List Char) :=
  if (trim text).getLast? = some ']' then
    (Quoted.findLast? '[' (trim text)).map fun opening =>
      ((trim text).drop (opening + 1)).dropLast
  else none

/-- A range selector goes beyond the range exactly if the text in its last brackets exhausts it.
-/
theorem rangeSelector_eq_beyondRange_iff {text : List Char} :
    rangeSelector text = .error .beyondRange ↔
      ∃ range, bracketed? text = some range ∧ Exhausts range := by
  unfold rangeSelector bracketed?
  dsimp only
  split
  · cases Quoted.findLast? '[' (trim text) with
    | none => simp
    | some opening =>
      -- behind the duration there are only faults
      simp [bind_eq_error_iff, duration_eq_beyondRange_iff, ite_eq_iff', selector_ne_beyondRange]
  · split <;> simp [selector_ne_beyondRange]

/-! ## Calls -/

/-- A call of a function goes beyond the range exactly if its argument is a range selector, with
nothing behind the call, whose length of time does. -/
theorem Call.plain_eq_beyondRange_iff {call : Call} :
    call.plain = .error .beyondRange ↔ call.rest = [] ∧ Quoted.find? '(' call.inner = none ∧
      ∃ range, bracketed? call.inner = some range ∧ Exhausts range := by
  have hempty (text : List Char) (h : trim text = []) : bracketed? text = none := by
    rw [bracketed?, h]
    rfl
  unfold Call.plain
  -- the checks in their order: nothing behind the call, no call inside, an argument at all
  by_cases hrest : call.rest = []
  · cases hflat : Quoted.find? '(' call.inner with
    | some _ => simp [hrest]
    | none =>
      by_cases hinner : trim call.inner = []
      · simp [hrest, hinner, hempty]
      · simp [hrest, hinner, rangeSelector_eq_beyondRange_iff]
  · simp [hrest]

/-! ## Queries -/

/-- The text that is read as the range of a query: what stands in brackets behind a selector, which
is the whole query, or the argument of a function, or lies inside of aggregations. -/
inductive RangeOf (catalog : Catalog) : List Char → List Char → Prop where
  | selector {text range : List Char} (hcall : callOpening? (trim text) = none)
    (h : bracketed? (trim text) = some range) : RangeOf catalog text range
  | function {text range : List Char} {opening : Nat}
    (hopening : callOpening? (trim text) = some opening)
    {call : { call : Call // call.inner.length < (trim text).length }}
    (hcall : Call.ofText (trim text) opening (callOpening?_lt hopening) = .ok call)
    (hname : catalog.isAggregation (String.ofList call.1.name) = false)
    (hrest : call.1.rest = []) (hflat : Quoted.find? '(' call.1.inner = none)
    (h : bracketed? call.1.inner = some range) : RangeOf catalog text range
  | aggregation {text range : List Char} {opening : Nat}
    (hopening : callOpening? (trim text) = some opening)
    {call : { call : Call // call.inner.length < (trim text).length }}
    (hcall : Call.ofText (trim text) opening (callOpening?_lt hopening) = .ok call)
    (hname : catalog.isAggregation (String.ofList call.1.name) = true)
    (h : RangeOf catalog call.1.inner range) : RangeOf catalog text range

section RangeOf

variable {catalog : Catalog} {text range : List Char}

/-- Without a call, the range of a text is what its own brackets hold. -/
theorem rangeOf_iff_of_none (hnone : callOpening? (trim text) = none) :
    RangeOf catalog text range ↔ bracketed? (trim text) = some range := by
  -- the other two forms of a range need a call
  refine ⟨fun h => ?_, .selector hnone⟩
  cases h with
  | selector _ h => exact h
  | function hopening => cases hnone.symm.trans hopening
  | aggregation hopening => cases hnone.symm.trans hopening

/-- A blank text has no range. -/
theorem not_rangeOf_of_blank (hblank : trim text = []) : ¬ RangeOf catalog text range := by
  have hnone : callOpening? (trim text) = none := hblank ▸ rfl
  -- a blank text has no call, and no brackets either
  rw [rangeOf_iff_of_none hnone, hblank]
  exact nofun

variable {opening : Nat} (hopening : callOpening? (trim text) = some opening)

include hopening

/-- A call that cannot be taken apart has no range. -/
theorem not_rangeOf_of_error {e : Error}
    (hcall : Call.ofText (trim text) opening (callOpening?_lt hopening) = .error e) :
    ¬ RangeOf catalog text range := by
  intro h
  -- where a call begins, and how it is taken apart, is determined by the text
  cases h with
  | selector hnone => cases hnone.symm.trans hopening
  | function hopening' hcall' =>
    cases hopening.symm.trans hopening'
    cases hcall.symm.trans hcall'
  | aggregation hopening' hcall' =>
    cases hopening.symm.trans hopening'
    cases hcall.symm.trans hcall'

variable {call : { call : Call // call.inner.length < (trim text).length }}
  (hcall : Call.ofText (trim text) opening (callOpening?_lt hopening) = .ok call)

include hcall

/-- The range of a call of a function is that of its argument, which is no call. -/
theorem rangeOf_iff_of_function
    (hname : catalog.isAggregation (String.ofList call.1.name) = false) :
    RangeOf catalog text range ↔ call.1.rest = [] ∧ Quoted.find? '(' call.1.inner = none ∧
      bracketed? call.1.inner = some range := by
  -- a name belongs to functions or to aggregations, not to both
  refine ⟨fun h => ?_, fun ⟨hrest, hflat, h⟩ => .function hopening hcall hname hrest hflat h⟩
  cases h with
  | selector hnone => cases hnone.symm.trans hopening
  | function hopening' hcall' _ hrest hflat h =>
    cases hopening.symm.trans hopening'
    cases hcall.symm.trans hcall'
    exact ⟨hrest, hflat, h⟩
  | aggregation hopening' hcall' hname' =>
    cases hopening.symm.trans hopening'
    cases hcall.symm.trans hcall'
    cases hname.symm.trans hname'

/-- The range of an aggregation is that of its argument, which may be a call. -/
theorem rangeOf_iff_of_aggregation
    (hname : catalog.isAggregation (String.ofList call.1.name) = true) :
    RangeOf catalog text range ↔ RangeOf catalog call.1.inner range := by
  refine ⟨fun h => ?_, .aggregation hopening hcall hname⟩
  cases h with
  | selector hnone => cases hnone.symm.trans hopening
  | function hopening' hcall' hname' =>
    cases hopening.symm.trans hopening'
    cases hcall.symm.trans hcall'
    cases hname.symm.trans hname'
  | aggregation hopening' hcall' _ h =>
    cases hopening.symm.trans hopening'
    cases hcall.symm.trans hcall'
    exact h

end RangeOf

/-- The arithmetic of the reader has no result exactly if the range exhausts the seconds. -/
theorem expression_eq_beyondRange_iff {catalog : Catalog} {text : List Char} :
    expression catalog text = .error .beyondRange ↔
      ∃ range, RangeOf catalog text range ∧ Exhausts range := by
  -- by the recursion of the reader, with the form of a range that belongs to each case
  fun_induction expression catalog text with
  | case1 text hnone =>
    simp only [rangeSelector_eq_beyondRange_iff, rangeOf_iff_of_none hnone]
  | case2 text opening hopening e hcall =>
    have hfault : Except.error e ≠ (.error .beyondRange : Except Error Query) := by
      rintro ⟨⟩
      exact Call.ofText_faultsIn _ _ _ _ hcall
    simp only [hfault, not_rangeOf_of_error hopening hcall, false_and, exists_false]
  | case3 text opening hopening call hlt hcall hname hempty =>
    have hblank := List.isEmpty_iff.1 hempty
    simp [rangeOf_iff_of_aggregation hopening hcall hname, not_rangeOf_of_blank hblank]
  | case4 text opening hopening call hlt hcall hname hempty ih =>
    have hgrouping := (grouping_faultsIn call.rest).ne_error (e := .beyondRange) id
    simp only [rangeOf_iff_of_aggregation hopening hcall hname]
    rw [← ih, bind_eq_error_iff, or_iff_left]
    -- behind the query there are only faults
    rintro ⟨query, -, h⟩
    simp [ite_eq_iff', hgrouping] at h
  | case5 text opening hopening call hlt hcall hname =>
    simp only [rangeOf_iff_of_function hopening hcall (Bool.eq_false_iff.2 hname),
      Call.plain_eq_beyondRange_iff, and_assoc, exists_and_left]

/-- **When reading a query panics.** It does so exactly if the text has a range, at any depth of
calls, and that range exhausts the lengths of time. -/
theorem parse_eq_beyondRange_iff {text : String} :
    parse text = .error .beyondRange ↔
      ∃ range, RangeOf Catalog.builtin (trim text.toList) range ∧ Exhausts range := by
  unfold parse
  split
  next hempty =>
    -- a blank text is refused before it is read as an expression
    have hblank : trim (trim text.toList) = [] := by
      rw [List.isEmpty_iff.1 hempty]
      rfl
    simp [not_rangeOf_of_blank hblank]
  next => exact expression_eq_beyondRange_iff

/-! ## Other errors -/

/-- An error that points into a text is a fault of the request. -/
theorem FailsIn.onlyFails {α : Type} {text : List Char} {x : Except Error α} (h : FailsIn text x) :
    OnlyFails Error.IsRequestFault x := by
  refine OnlyFails.mono h fun e he => he.imp_left fun hpoints => ?_
  cases e with
  | query => rfl
  | _ => cases hpoints

/-- Reading a length of time fails with faults of the request only. -/
theorem duration_fails (text : List Char) : OnlyFails Error.IsRequestFault (duration text) :=
  (duration_failsIn text).onlyFails

/-- Reading a query fails with faults of the request only. -/
theorem parse_fails (text : String) : OnlyFails Error.IsRequestFault (parse text) :=
  (parse_failsIn text).onlyFails

/-! ## The check -/

/-- Checking a query against the names on offer fails with faults of the client only; nothing
panics here. -/
theorem Catalog.validate_fails (catalog : Catalog) (query : Query) :
    OnlyFails (·.isClientFault = true) (catalog.validate query) := by
  have hfunction : OnlyFails (·.isClientFault = true) (catalog.validateFunction query) := by
    unfold validateFunction
    repeat' split
    all_goals simp [Error.isClientFault]
  have haggregation : OnlyFails (·.isClientFault = true) (catalog.validateAggregation query) := by
    unfold validateAggregation
    repeat' split
    all_goals simp [Error.isClientFault]
  -- each of the two halves fails with faults of the client only
  rw [validate, onlyFails_bind]
  exact ⟨hfunction, fun _ _ => haggregation⟩

end Query

end Telemetry
