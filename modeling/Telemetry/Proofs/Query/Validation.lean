import Telemetry.Proofs.Query.Execution

/-!
What the check of a query promises to its evaluation.

Four things are written down apart: the catalog, the list of functions and that of aggregations, and
the dispatch on a name when it is applied. They agree (`catalogs_agree`). So a query that passes the
check is refused by no list and by no dispatch, neither before its rows are fetched nor after; and a
function that needs a range has one. What is left to go wrong is arithmetic on the range
(`RangeFailure`), and the kind of the result can be read off the query.
-/

set_option autoImplicit false

namespace Telemetry

open Fallible
open Time (Instant Duration)

theorem Time.Duration.toSigned_eq_ok_iff {d : Duration} {n : Int} :
    d.toSigned = .ok n ↔ d.toSigned? = some n := by
  rw [toSigned]
  cases d.toSigned? <;> simp

theorem Time.Duration.toSigned_eq_error_iff {d : Duration} {e : Error} :
    d.toSigned = .error e ↔ d.toSigned? = none ∧ e = .invalidArgument .durationTooLong := by
  rw [toSigned]
  cases d.toSigned? <;> simp [eq_comm]

namespace Query

/-! ## The catalog, the lists and the dispatch

What the check knows is a table, what the evaluation knows is two lists, and what it does is
decided by comparing names one after another. None of these is made from another. -/

/-- A declared function needs a range exactly if it is declared with the argument of one. -/
theorem needsRange_iff_of_declared : ∀ d ∈ Catalog.builtins,
    (d.name = "rate" ∨ d.name = "increase") ↔ d.arguments.head? = some .rangeVector := by
  decide +kernel

/-- Each function of the catalog is listed under its own name. -/
theorem builtin_get?_name : ∀ name ∈ Catalog.builtin.keys, ∀ d ∈ Catalog.builtin.get? name,
    d.name = name ∧ d ∈ Catalog.builtins := by
  decide +kernel

/-- What is listed is declared. -/
theorem declared_of_listed : ∀ name ∈ Series.functions ++ Series.aggregations,
    name ∈ Catalog.builtin.keys ∧ name ≠ "time" := by
  decide +kernel

/-- Every aggregation that is evaluated is one for the reader as well. -/
theorem isAggregation_of_listed : ∀ name ∈ Series.aggregations,
    Catalog.builtin.isAggregation name = true := by
  decide +kernel

/-- **The catalog, the lists and the dispatch agree.** Apart from `time`, the catalog declares just
the functions that the lists let pass, and they let pass just those for which the dispatch has an
arm; and so it is with aggregations. -/
theorem catalogs_agree (name : String) (series : List Series) (range : Option Int)
    (time : Instant) (grouping : Grouping) :
    (name ∈ Catalog.builtin.keys ∧ name ≠ "time" ↔ Series.ensureFunction name = .ok ()) ∧
    (Series.ensureFunction name = .ok () ↔
      ∀ other, Series.apply name series range time ≠ .error (.unsupported (.function other))) ∧
    (Catalog.builtin.isAggregation name = true ↔ Series.ensureAggregation name = .ok ()) ∧
    (Series.ensureAggregation name = .ok () ↔
      ∃ results, Series.aggregate ⟨name, grouping⟩ series time = .ok results) := by
  -- each of the lists decides what it names, and the tables are compared entry by entry
  have hfunction : Series.ensureFunction name = .ok () ↔
      name ∈ Series.functions ∨ name ∈ Series.aggregations := Series.ensureFunction_eq_ok_iff
  have haggregation : Series.ensureAggregation name = .ok () ↔ name ∈ Series.aggregations :=
    Series.ensureAggregation_eq_ok_iff
  refine ⟨?_, ?_, ?_, ?_⟩
  · rw [hfunction]
    constructor
    · rintro ⟨hdeclared, htime⟩
      exact listed_of_declared name hdeclared htime
    · intro hlisted
      exact declared_of_listed name (List.mem_append.2 hlisted)
  · simp only [ne_eq, Series.apply_eq_unknown_iff]
    constructor
    · intro hok other herror
      rw [hok] at herror
      cases herror
    · intro hnone
      by_contra hnot
      rw [hfunction, not_or] at hnot
      exact hnone name (Series.ensureFunction_eq_error_iff.2 ⟨hnot, rfl⟩)
  · rw [haggregation]
    constructor
    · intro hdeclared
      exact listed_of_isAggregation name (mem_keys_of_isAggregation hdeclared) hdeclared
    · exact isAggregation_of_listed name
  · constructor
    · intro hok
      exact ⟨_, Series.aggregate_eq_ok (a := ⟨name, grouping⟩) (haggregation.1 hok) series time⟩
    · rintro ⟨results, hresults⟩
      obtain ⟨⟨⟩, hensured, -⟩ := bind_eq_ok hresults
      exact hensured

variable {query : Query} {window : Window}

/-- A function that passes the check and needs a range has one. -/
theorem isSome_range_of_validateFunction {name : String}
    (hvalid : Catalog.builtin.validateFunction query = .ok ()) (h : query.function = some name)
    (hneeds : Series.NeedsRange name) : query.range.isSome = true := by
  have hmem := mem_keys_of_validateFunction hvalid h
  rw [Catalog.validateFunction, h] at hvalid
  dsimp only at hvalid
  split at hvalid
  next => cases hvalid
  next d hget =>
  obtain ⟨rfl, hd⟩ := builtin_get?_name name hmem d hget
  have hargument := (needsRange_iff_of_declared d hd).1 hneeds
  simp only [hargument] at hvalid
  split at hvalid
  next => cases hvalid
  next =>
  cases hr : query.range with
  | none =>
    rw [hr] at hvalid
    cases hvalid
  | some d => rfl

/-! ## What can go wrong behind the check

All that is left are lengths of time that are too long and instants before the calendar. -/

/-- The ways in which the range of a query has no result, given the rows that come for a query with
a function. -/
inductive RangeFailure (query : Query) (window : Window) (rows : List Row) : Error → Prop where
  /-- The range is too long to be converted. -/
  | conversion {d : Duration} (hrange : query.range = some d) (h : d.toSigned? = none) :
    RangeFailure query window rows (.invalidArgument .durationTooLong)
  /-- Without a function, it cannot be subtracted from the end of the window. -/
  | stop {d : Duration} {n : Int} (hfunction : query.function = none)
    (hrange : query.range = some d) (hn : d.toSigned? = some n)
    (h : window.stop.minus? n = none) : RangeFailure query window rows .beyondRange
  /-- It is the range of `increase`, and cannot be subtracted from the time of a row. -/
  | row {d : Duration} {n : Int} {row : Row} (hfunction : query.function = some "increase")
    (hrange : query.range = some d) (hn : d.toSigned? = some n) (hrow : row ∈ rows)
    (h : row.time.minus? n = none) : RangeFailure query window rows .beyondRange

/-- What a plan takes over from a query and its window. -/
theorem plan_fields {p : Plan} (h : plan query window = .ok p) :
    p.kind = resultKind query ∧
    (query.function.isSome = true →
      p.fetch = ⟨query.metric, window.start, window.stop, query.labels⟩) := by
  obtain ⟨⟨⟩, -, h⟩ := bind_eq_ok h
  obtain ⟨range, -, h⟩ := bind_eq_ok h
  obtain ⟨start, hstart, h⟩ := bind_eq_ok h
  cases h
  refine ⟨rfl, fun hfunction => ?_⟩
  obtain ⟨name, hname⟩ := Option.isSome_iff_exists.1 hfunction
  unfold fetchStart at hstart
  rw [hname] at hstart
  cases hstart
  rfl

/-- The result of a plan is of the kind that was planned. -/
theorem Plan.kind_of_finish {p : Plan} {rows : List Row} {result : QueryResult}
    (h : p.finish rows = .ok result) : result.kind = p.kind := by
  obtain ⟨series, -, h⟩ := bind_eq_ok h
  obtain ⟨series, -, h⟩ := bind_eq_ok h
  cases h
  rfl

/-- Rows that have come for a query that is checked fail its plan exactly if the range cannot be
subtracted from one of them. -/
theorem Checked.finish_eq_error_iff (h : Checked query) {p : Plan} {rows : List Row} {e : Error}
    (hplan : plan query window = .ok p) :
    p.finish rows = .error e ↔ e = .beyondRange ∧ query.function = some "increase" ∧
      ∃ n, p.range = some n ∧ ∃ row ∈ rows, row.time.minus? n = none := by
  obtain ⟨hnames, -, -, hrange⟩ := of_plan_eq_ok hplan
  obtain ⟨⟨⟩, hvalid, -⟩ := bind_eq_ok h.valid
  rw [Query.finish_eq_error_iff hplan]
  constructor
  · rintro ⟨name, hname, happly⟩
    cases Series.apply_eq_error_iff.1 happly with
    | unknown hunknown =>
      exact absurd ((ensureNames_eq_ok_iff.1 hnames).1 name hname) (not_or.2 hunknown)
    | range hneeds hnone =>
      -- the check saw to it that there is a range
      obtain ⟨d, hd⟩ := Option.isSome_iff_exists.1
        (isSome_range_of_validateFunction hvalid hname hneeds)
      rw [hd, hnone] at hrange
      obtain ⟨n, -, hn⟩ := map_eq_ok hrange
      cases hn
    | time hincrease hn hpoint =>
      exact ⟨rfl, hincrease ▸ hname, _, hn, Series.exists_point_ofRows_iff.1 hpoint⟩
  · rintro ⟨rfl, hname, n, hn, hrow⟩
    exact ⟨_, hname, Series.apply_eq_error_iff.2
      (.time rfl hn (Series.exists_point_ofRows_iff.2 hrow))⟩

variable {answer : Fetch → List Row} {result : QueryResult}

/-- Where the source answers, the evaluation of a query that is checked is its plan, finished on the
rows that the plan asks for. -/
theorem Checked.evaluate_eq (h : Checked query) :
    (evaluate (Source.ofAnswers (fun f => .ok (answer f)) false) query window :
      Id (Except Error QueryResult)) =
      (plan query window >>= fun p => p.finish (answer p.fetch)) := by
  rw [evaluate_ofAnswers, h.notTime, if_neg Bool.false_ne_true]
  cases plan query window with
  | error e => rfl
  | ok p =>
    dsimp only [bind, Except.bind]
    cases p.finish (answer p.fetch) <;> rfl

/-- It ends with an error exactly if the range fails. -/
theorem Checked.evaluate_eq_error_iff (h : Checked query) {e : Error} :
    (evaluate (Source.ofAnswers (fun f => .ok (answer f)) false) query window :
      Id (Except Error QueryResult)) = .error e ↔
      RangeFailure query window
        (answer ⟨query.metric, window.start, window.stop, query.labels⟩) e := by
  -- what was checked can only fail while it is planned or while the rows are finished
  rw [h.evaluate_eq, bind_eq_error_iff, h.plan_eq_error_iff]
  constructor
  · rintro (⟨d, hrange, herror | ⟨rfl, hfunction, n, hn, hminus⟩⟩ | ⟨p, hplan, hfinish⟩)
    · obtain ⟨hnone, rfl⟩ := Duration.toSigned_eq_error_iff.1 herror
      exact .conversion hrange hnone
    · exact .stop hfunction hrange (Duration.toSigned_eq_ok_iff.1 hn) hminus
    · obtain ⟨rfl, hname, n, hn, row, hrow, hminus⟩ := (h.finish_eq_error_iff hplan).1 hfinish
      obtain ⟨-, -, -, hrange⟩ := of_plan_eq_ok hplan
      rw [hn] at hrange
      obtain ⟨d, hd, hdn⟩ := mapM_eq_ok_some_iff.1 hrange
      rw [(plan_fields hplan).2 (by rw [hname, Option.isSome_some])] at hrow
      exact .row hname hd (Duration.toSigned_eq_ok_iff.1 hdn) hrow hminus
  · intro hfails
    cases hfails with
    | conversion hrange hnone =>
      exact .inl ⟨_, hrange, .inl (Duration.toSigned_eq_error_iff.2 ⟨hnone, rfl⟩)⟩
    | stop hfunction hrange hn hminus =>
      exact .inl ⟨_, hrange, .inr
        ⟨rfl, hfunction, _, Duration.toSigned_eq_ok_iff.2 hn, hminus⟩⟩
    | @row d n _ hfunction hrange hn hrow hminus =>
      have hn := Duration.toSigned_eq_ok_iff.2 hn
      obtain ⟨p, hplan⟩ := h.exists_plan window hfunction hrange hn
      obtain ⟨-, -, -, hp⟩ := of_plan_eq_ok hplan
      have hprange : p.range = some n :=
        Except.ok.inj (hp.symm.trans (mapM_eq_ok_some_iff.2 ⟨d, hrange, hn⟩))
      rw [← (plan_fields hplan).2 (by rw [hfunction, Option.isSome_some])] at hrow
      exact .inr ⟨p, hplan,
        (h.finish_eq_error_iff hplan).2 ⟨rfl, hfunction, n, hprange, _, hrow, hminus⟩⟩

/-- The result of a query that passed the check is of the kind that follows from the query alone.
-/
theorem Checked.kind_of_evaluate (h : Checked query)
    (hresult : (evaluate (Source.ofAnswers (fun f => .ok (answer f)) false) query window :
      Id (Except Error QueryResult)) = .ok result) : result.kind = resultKind query := by
  rw [h.evaluate_eq] at hresult
  obtain ⟨p, hplan, hfinish⟩ := bind_eq_ok hresult
  rw [Plan.kind_of_finish hfinish, (plan_fields hplan).1]

/-- The time is asked for by its function alone. -/
theorem isTime_iff : isTime query = true ↔
    query.function = some "time" ∧ query.aggregation = none := by
  rw [isTime, Bool.and_eq_true, beq_iff_eq, Option.isNone_iff_eq_none]

/-- No query has a scalar for its result. -/
theorem resultKind_ne_scalar (query : Query) : resultKind query ≠ .scalar := by
  rw [resultKind]
  split <;> nofun

/-- A query has a matrix for its result exactly if it is a plain range. -/
theorem resultKind_eq_matrix_iff : resultKind query = .matrix ↔
    query.range.isSome = true ∧ query.function = none ∧ query.aggregation = none := by
  simp [resultKind]

/-- **The check of a query is sound for its evaluation.** A query that passes it, whatever its
source answers, ends with an error exactly if it is not the bare function `time` and its range
fails; in particular it is never refused as unsupported. A result is a scalar exactly for the bare
function `time`, then it is one point at the end of the window and no source is asked, and it is a
matrix exactly for a range alone. -/
theorem evaluate_of_validate (hvalid : Catalog.builtin.validate query = .ok ()) (window : Window)
    (answer : Fetch → List Row) :
    let outcome : Except Error QueryResult :=
      evaluate (m := Id) (Source.ofAnswers (fun f => .ok (answer f)) false) query window
    let rows := answer ⟨query.metric, window.start, window.stop, query.labels⟩
    (∀ e, outcome = .error e ↔ isTime query = false ∧ RangeFailure query window rows e) ∧
    (∀ name, outcome ≠ .error (.unsupportedFunction name)) ∧
    (∀ fault, outcome ≠ .error (.unsupported fault)) ∧
    (∀ result, outcome = .ok result →
      (result.kind = .scalar ↔ query.function = some "time" ∧ query.aggregation = none) ∧
      (result.kind = .matrix ↔
        query.range.isSome = true ∧ query.function = none ∧ query.aggregation = none) ∧
      (result.kind = .scalar → ∃ s p, result.series = [s] ∧ s.points = [p] ∧
        p.time = window.stop)) ∧
    (query.function = some "time" ∧ query.aggregation = none →
      ∀ {m : Type → Type} [Monad m] (source : Source m), evaluate source query window =
        pure (.ok ⟨.scalar, [Series.timeSeries window.stop]⟩)) := by
  intro outcome rows
  -- the time function asks for nothing and never fails; the others fail by the arithmetic alone
  have herror (e : Error) :
      outcome = .error e ↔ isTime query = false ∧ RangeFailure query window rows e := by
    cases htime : isTime query with
    | false => simpa using Checked.evaluate_eq_error_iff ⟨hvalid, htime⟩
    | true => simp [outcome, evaluate_ofAnswers, htime]
  refine ⟨herror, fun name h => ?_, fun fault h => ?_, fun result h => ?_, fun h m _ source => ?_⟩
  · obtain ⟨-, hfails⟩ := (herror _).1 h
    cases hfails
  · obtain ⟨-, hfails⟩ := (herror _).1 h
    cases hfails
  · cases htime : isTime query with
    | false =>
      have hnot := mt isTime_iff.2 (Bool.eq_false_iff.1 htime)
      rw [Checked.kind_of_evaluate ⟨hvalid, htime⟩ h]
      exact ⟨iff_of_false (resultKind_ne_scalar query) hnot, resultKind_eq_matrix_iff,
        fun hscalar => absurd hscalar (resultKind_ne_scalar query)⟩
    | true =>
      obtain ⟨hfunction, haggregation⟩ := isTime_iff.1 htime
      simp only [outcome, evaluate_ofAnswers, htime] at h
      cases h
      refine ⟨iff_of_true rfl ⟨hfunction, haggregation⟩, iff_of_false nofun ?_,
        fun _ => ⟨_, _, rfl, rfl, rfl⟩⟩
      rintro ⟨-, hnone, -⟩
      cases hfunction.symm.trans hnone
  · rw [evaluate, isTime_iff.2 h]
    rfl

/-- The sum of the increases of a metric over five minutes. -/
def totalIncrease : Query where
  metric := "up"
  function := some "increase"
  range := some (.ofSeconds 300)
  aggregation := some ⟨"sum", .none⟩

/-- The theorem for the sum of an increase, over one value. -/
theorem totalIncrease_never_unsupported :
    Catalog.builtin.validate totalIncrease = .ok () ∧
    ∀ fault, evaluate (m := Id)
      (Source.ofAnswers (fun _ => .ok [⟨"up", .epoch, 1.0, .empty⟩]) false)
      totalIncrease ⟨.epoch, .epoch, by decide⟩ ≠ .error (.unsupported fault) :=
  have hvalid : Catalog.builtin.validate totalIncrease = .ok () := by decide +kernel
  ⟨hvalid, (evaluate_of_validate hvalid _ _).2.2.1⟩

end Query

end Telemetry
