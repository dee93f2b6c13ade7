import Telemetry.Proofs.Query.Faults
import Telemetry.Proofs.Series.Identity
import Telemetry.Proofs.Time.Instant
import Telemetry.Query.Evaluation

/-!
The execution of a query as a chain of steps, and where in it the arithmetic can go wrong.

A query is read, checked, planned, given its rows, and finished; the first step that fails settles
the error (`FailsWith`). Names that pass the check are known to the planner, so that behind the
check only two steps subtract a length of time: the planner, for a range without a function, from
the end of the window, and `increase` from the time of each point.
-/

set_option autoImplicit false

namespace Telemetry

open Fallible
open Time (Instant Duration Overreaches)

/-! ## Functions -/

namespace Series

/-- Applying a function to series leaves the calendar exactly if it is `increase`, and its range
cannot be subtracted from some point. -/
theorem apply_eq_beyondRange_iff {name : String} {series : List Series} {range : Option Int}
    {time : Instant} :
    apply name series range time = .error .beyondRange ↔ name = "increase" ∧
      ∃ n, range = some n ∧ ∃ s ∈ series, ∃ p ∈ s.points, p.time.minus? n = none := by
  rw [apply_eq_error_iff]
  constructor
  · rintro ⟨⟩
    exact ⟨‹_›, _, ‹_›, ‹_›⟩
  · rintro ⟨hname, n, hn, hpoint⟩
    exact .time hname hn hpoint

/-- All else that goes wrong is the client's own doing. -/
theorem apply_fails (name : String) (series : List Series) (range : Option Int)
    (time : Instant) : OnlyFails Error.IsRequestFault (apply name series range time) := by
  intro e he
  cases apply_eq_error_iff.1 he with
  | unknown => exact .inl rfl
  | range => exact .inl rfl
  | time => exact .inr rfl

/-- The points of a series are those of its rows. -/
theorem mem_points_ofMembers {g : List Row} (hne : g ≠ []) {p : Point} :
    p ∈ (ofMembers g).points ↔ ∃ row ∈ g, row.point = p := by
  cases g with
  | nil => contradiction
  | cons first others => rw [ofMembers, sortPoints, List.mem_mergeSort, List.mem_map]

/-- The points of the series of some rows are the points of the rows. -/
theorem exists_point_ofRows_iff {rows : List Row} {q : Point → Prop} :
    (∃ s ∈ ofRows rows, ∃ p ∈ s.points, q p) ↔ ∃ row ∈ rows, q row.point := by
  rw [ofRows_eq_groups]
  constructor
  · rintro ⟨s, hs, p, hp, hq⟩
    obtain ⟨g, hg, rfl⟩ := List.mem_map.1 hs
    obtain ⟨hne, k, rfl⟩ := Dictionary.mem_groups.1 hg
    obtain ⟨row, hrow, rfl⟩ := (mem_points_ofMembers hne).1 hp
    exact ⟨row, (List.mem_filter.1 hrow).1, hq⟩
  · rintro ⟨row, hrow, hq⟩
    have hmem : row ∈ rows.filter fun other => other.labels.key = row.labels.key :=
      List.mem_filter.2 ⟨hrow, decide_eq_true rfl⟩
    have hne := List.ne_nil_of_mem hmem
    exact ⟨_, List.mem_map_of_mem (Dictionary.mem_groups.2 ⟨hne, _, rfl⟩), _,
      (mem_points_ofMembers hne).2 ⟨row, hmem, rfl⟩, hq⟩

end Series

namespace Query

/-! ## Names behind the check -/

/-- A declared function is listed, apart from `time`. -/
theorem listed_of_declared : ∀ name ∈ Catalog.builtin.keys, name ≠ "time" →
    name ∈ Series.functions ∨ name ∈ Series.aggregations := by
  decide +kernel

/-- A declared aggregation is listed as one. -/
theorem listed_of_isAggregation : ∀ name ∈ Catalog.builtin.keys,
    Catalog.builtin.isAggregation name = true → name ∈ Series.aggregations := by
  decide +kernel

/-- The text is read as a query, which passes the check and is not the bare function `time`. -/
structure Passes (text : String) (query : Query) : Prop where
  parsed : parse text = .ok query
  valid : Catalog.builtin.validate query = .ok ()
  notTime : isTime query = false

variable {text : String} {query : Query} {window : Window}

/-- A function that passes the check is declared. -/
theorem mem_keys_of_validateFunction {name : String}
    (hvalid : Catalog.builtin.validateFunction query = .ok ()) (h : query.function = some name) :
    name ∈ Catalog.builtin.keys := by
  rw [← Dictionary.contains_iff, Dictionary.contains]
  rw [Catalog.validateFunction, h] at hvalid
  dsimp only at hvalid
  cases hget : Catalog.builtin.get? name with
  | none =>
    rw [hget] at hvalid
    cases hvalid
  | some d => rfl

/-- An aggregation is in the catalog. -/
theorem mem_keys_of_isAggregation {name : String}
    (h : Catalog.builtin.isAggregation name = true) : name ∈ Catalog.builtin.keys := by
  rw [← Dictionary.contains_iff, Dictionary.contains]
  rw [Catalog.isAggregation] at h
  cases hget : Catalog.builtin.get? name with
  | none =>
    rw [hget] at h
    cases h
  | some d => rfl

/-- An aggregation that passes the check is declared, and is not applied to the function `time`. -/
theorem of_validateAggregation {a : Aggregation}
    (hvalid : Catalog.builtin.validateAggregation query = .ok ()) (h : query.aggregation = some a) :
    Catalog.builtin.isAggregation a.operation = true ∧ query.function ≠ some "time" := by
  rw [Catalog.validateAggregation, h] at hvalid
  dsimp only at hvalid
  split at hvalid
  · cases hvalid
  next hagg =>
    refine ⟨by simpa using hagg, fun hfunction => ?_⟩
    rw [Catalog.inputShape, hfunction] at hvalid
    cases hvalid

/-- The query passes the check, and is not the bare function `time`. -/
structure Checked (query : Query) : Prop where
  valid : Catalog.builtin.validate query = .ok ()
  notTime : isTime query = false

theorem Passes.checked (h : Passes text query) : Checked query := ⟨h.valid, h.notTime⟩

/-- The names in a query pass exactly if they are listed. -/
theorem ensureNames_eq_ok_iff :
    ensureNames query = .ok () ↔
      (∀ name, query.function = some name → name ∈ Series.functions ∨ name ∈ Series.aggregations) ∧
      ∀ a, query.aggregation = some a → a.operation ∈ Series.aggregations := by
  rw [ensureNames, bind_check_eq_ok_iff, forM_eq_ok_iff, forM_eq_ok_iff]
  simp only [Series.ensureFunction_eq_ok_iff, Series.ensureAggregation_eq_ok_iff]

/-- Otherwise the error is that of the first name that is not listed. -/
theorem ensureNames_eq_error_iff {e : Error} :
    ensureNames query = .error e ↔
      (∃ name, query.function = some name ∧ Series.ensureFunction name = .error e) ∨
      query.function.forM Series.ensureFunction = .ok () ∧
        ∃ a, query.aggregation = some a ∧ Series.ensureAggregation a.operation = .error e := by
  rw [ensureNames, bind_eq_error_iff, forM_eq_error_iff]
  simp only [forM_eq_error_iff]
  refine or_congr_right ?_
  constructor
  · rintro ⟨⟨⟩, h⟩
    exact h
  · intro h
    exact ⟨(), h⟩

/-- The names in a query that is checked pass the lists. -/
theorem Checked.ensureNames (h : Checked query) : ensureNames query = .ok () := by
  obtain ⟨⟨⟩, hfunction, haggregation⟩ := bind_eq_ok h.valid
  apply ensureNames_eq_ok_iff.2
  constructor
  · intro name hf
    refine listed_of_declared name (mem_keys_of_validateFunction hfunction hf) ?_
    rintro rfl
    cases ha : query.aggregation with
    | none => simpa [isTime, hf, ha] using h.notTime
    | some a => exact (of_validateAggregation haggregation ha).2 hf
  · intro a ha
    have hdeclared := (of_validateAggregation haggregation ha).1
    exact listed_of_isAggregation a.operation (mem_keys_of_isAggregation hdeclared) hdeclared

/-! ## Plans

What is asked of the source, and what is done with the answer, is fixed before it is asked. A plan
fails only in its arithmetic once the names are known. -/

/-- What a plan takes over from the query, whose names have passed the lists. -/
theorem of_plan_eq_ok {p : Plan} (h : plan query window = .ok p) :
    ensureNames query = .ok () ∧ p.function = query.function ∧
      p.aggregation = query.aggregation ∧ query.range.mapM Duration.toSigned = .ok p.range := by
  obtain ⟨⟨⟩, hnames, h⟩ := bind_eq_ok h
  obtain ⟨range, hrange, h⟩ := bind_eq_ok h
  obtain ⟨start, -, h⟩ := bind_eq_ok h
  cases h
  exact ⟨hnames, rfl, rfl, hrange⟩

/-- The start of what is fetched has no result exactly if a range without a function cannot be
subtracted from the end of the window. -/
theorem fetchStart_eq_error_iff {range : Option Int} {e : Error} :
    fetchStart query window range = .error e ↔
      e = .beyondRange ∧ query.function = none ∧ ∃ n, range = some n ∧
        window.stop.minus? n = none := by
  unfold fetchStart
  split
  next n hfunction =>
    simp [Instant.minus_eq_error_iff, hfunction]
  next hother =>
    rw [iff_false_left (pure_ne_error _ _)]
    rintro ⟨-, hfunction, n, hrange, -⟩
    exact hother n hfunction hrange

/-- A duration that is too long is a fault of the request. -/
theorem toSigned_fails (d : Duration) : OnlyFails Error.IsRequestFault d.toSigned := by
  rw [Duration.toSigned]
  split <;> simp

/-- A query that cannot be planned is the client's own doing, or a subtraction has no result. -/
theorem plan_fails (query : Query) (window : Window) :
    OnlyFails Error.IsRequestFault (plan query window) := by
  have hnames : OnlyFails Error.IsRequestFault (ensureNames query) := by
    intro e he
    rcases ensureNames_eq_error_iff.1 he with ⟨name, -, h⟩ | ⟨-, a, -, h⟩
    · rw [(Series.ensureFunction_eq_error_iff.1 h).2]
      exact .inl rfl
    · rw [(Series.ensureAggregation_eq_error_iff.1 h).2]
      exact .inl rfl
  have hstart (range : Option Int) :
      OnlyFails Error.IsRequestFault (fetchStart query window range) :=
    fun e he => .inr (fetchStart_eq_error_iff.1 he).1
  unfold plan
  simp only [onlyFails_bind, onlyFails_option_mapM, onlyFails_pure, implies_true, and_true,
    hnames, toSigned_fails, hstart]

/-- A query that is checked cannot be planned exactly if its range cannot be converted or, without a
function, cannot be subtracted from the end of the window. -/
theorem Checked.plan_eq_error_iff (h : Checked query) {e : Error} :
    plan query window = .error e ↔ ∃ d, query.range = some d ∧
      (d.toSigned = .error e ∨ e = .beyondRange ∧ query.function = none ∧
        ∃ n, d.toSigned = .ok n ∧ window.stop.minus? n = none) := by
  rw [plan, h.ensureNames]
  simp only [bind_eq_error_iff, reduceCtorEq, false_or, exists_const, true_and, pure_ne_error,
    and_false, or_false, mapM_eq_error_iff, fetchStart_eq_error_iff]
  constructor
  · rintro (⟨d, hd, herror⟩ | ⟨_, hmap, rfl, hfunction, n, rfl, hminus⟩)
    · exact ⟨d, hd, .inl herror⟩
    · obtain ⟨d, hd, hn⟩ := mapM_eq_ok_some_iff.1 hmap
      exact ⟨d, hd, .inr ⟨rfl, hfunction, n, hn, hminus⟩⟩
  · rintro ⟨d, hd, herror | ⟨rfl, hfunction, n, hn, hminus⟩⟩
    · exact .inl ⟨d, hd, herror⟩
    · exact .inr ⟨_, mapM_eq_ok_some_iff.2 ⟨d, hd, hn⟩, rfl, hfunction, n, rfl, hminus⟩

/-- For a query that passes, a plan has no result exactly if a range without a function reaches from
the end of the window to before the calendar. -/
theorem Passes.plan_eq_beyondRange_iff (h : Passes text query)
    (hstop : window.stop.inCalendar = true) :
    plan query window = .error .beyondRange ↔
      query.function = none ∧ ∃ d, query.range = some d ∧ Overreaches window.stop d := by
  have hrange (d : Duration) : d.toSigned ≠ .error .beyondRange := by
    rw [Duration.toSigned]
    split <;> simp
  simp only [h.checked.plan_eq_error_iff, hrange, false_or, true_and, Time.overreaches_iff hstop]
  constructor
  · rintro ⟨d, hd, hfunction, hn⟩
    exact ⟨hfunction, d, hd, hn⟩
  · rintro ⟨hfunction, d, hd, hn⟩
    exact ⟨d, hd, hfunction, hn⟩

/-- A function that is checked, with a range that can be converted, is planned. -/
theorem Checked.exists_plan (h : Checked query) (window : Window) {name : String}
    (hfunction : query.function = some name) {d : Duration} (hrange : query.range = some d)
    {n : Int} (hn : d.toSigned = .ok n) : ∃ p, plan query window = .ok p := by
  have hsigned : query.range.mapM Duration.toSigned = .ok (some n) :=
    mapM_eq_ok_some_iff.2 ⟨d, hrange, hn⟩
  have hstart : fetchStart query window (some n) = .ok window.start := by
    unfold fetchStart
    split
    next hnone _ => cases hfunction.symm.trans hnone
    next => rfl
  rw [plan, h.ensureNames, hsigned]
  change ∃ p, fetchStart query window (some n) >>= _ = .ok p
  rw [hstart]
  exact ⟨_, rfl⟩

/-! ## Results -/

/-- A plan fails in its function exactly if this fails. -/
theorem Plan.applied_eq_error_iff {p : Plan} {series : List Series} {e : Error} :
    p.applied series = .error e ↔
      ∃ name, p.function = some name ∧ Series.apply name series p.range p.stop = .error e := by
  rw [applied]
  cases p.function <;> simp

/-- A plan fails in its aggregation exactly if there is no such one. -/
theorem Plan.aggregated_eq_error_iff {p : Plan} {series : List Series} {e : Error} :
    p.aggregated series = .error e ↔
      ∃ a, p.aggregation = some a ∧ Series.ensureAggregation a.operation = .error e := by
  rw [aggregated]
  cases p.aggregation <;> simp [Series.aggregate_eq_error_iff]

/-- Rows that have come fail a plan exactly if its function does: the name of the aggregation has
passed the list before. -/
theorem finish_eq_error_iff {p : Plan} {rows : List Row} {e : Error}
    (hplan : plan query window = .ok p) :
    p.finish rows = .error e ↔ ∃ name, query.function = some name ∧
      Series.apply name (Series.ofRows rows) p.range p.stop = .error e := by
  obtain ⟨hnames, hfunction, haggregation, -⟩ := of_plan_eq_ok hplan
  have hlisted : ∀ series, p.aggregated series ≠ .error e := by
    intro series h
    obtain ⟨a, ha, h⟩ := Plan.aggregated_eq_error_iff.1 h
    exact (Series.ensureAggregation_eq_error_iff.1 h).1
      ((ensureNames_eq_ok_iff.1 hnames).2 a (haggregation ▸ ha))
  rw [Plan.finish, bind_eq_error_iff, Plan.applied_eq_error_iff, hfunction, or_iff_left]
  rintro ⟨series, -, h⟩
  rcases bind_eq_error_iff.1 h with h | ⟨_, -, h⟩
  · exact hlisted series h
  · cases h

/-- What goes wrong with a plan is the client's own doing. -/
theorem Plan.finish_fails (p : Plan) (rows : List Row) :
    OnlyFails Error.IsRequestFault (p.finish rows) := by
  intro e he
  rw [finish, bind_eq_error_iff, applied_eq_error_iff] at he
  rcases he with ⟨name, -, h⟩ | ⟨series, -, h⟩
  · exact Series.apply_fails _ _ _ _ e h
  · rcases bind_eq_error_iff.1 h with h | ⟨_, -, h⟩
    · obtain ⟨a, -, h⟩ := aggregated_eq_error_iff.1 h
      rw [(Series.ensureAggregation_eq_error_iff.1 h).2]
      exact .inl rfl
    · cases h

/-- The rows of a planned query have no result exactly if its function is `increase`, and its range
cannot be subtracted from the time of one of them. -/
theorem finish_eq_beyondRange_iff_minus {p : Plan} {rows : List Row}
    (hplan : plan query window = .ok p) :
    p.finish rows = .error .beyondRange ↔ query.function = some "increase" ∧
      ∃ d n, query.range = some d ∧ d.toSigned = .ok n ∧
        ∃ row ∈ rows, row.time.minus? n = none := by
  obtain ⟨-, -, -, hrange⟩ := of_plan_eq_ok hplan
  rw [finish_eq_error_iff hplan]
  constructor
  · rintro ⟨name, hname, happly⟩
    obtain ⟨rfl, n, hn, hpoint⟩ := Series.apply_eq_beyondRange_iff.1 happly
    rw [hn] at hrange
    obtain ⟨d, hd, hdn⟩ := mapM_eq_ok_some_iff.1 hrange
    exact ⟨hname, d, n, hd, hdn, Series.exists_point_ofRows_iff.1 hpoint⟩
  · rintro ⟨hname, d, n, hd, hdn, hrow⟩
    have hn : p.range = some n :=
      Except.ok.inj (hrange.symm.trans (mapM_eq_ok_some_iff.2 ⟨d, hd, hdn⟩))
    exact ⟨_, hname, Series.apply_eq_beyondRange_iff.2
      ⟨rfl, n, hn, Series.exists_point_ofRows_iff.2 hrow⟩⟩

/-- For rows within the calendar this is so exactly if the range reaches from one of them to before
its beginning. -/
theorem finish_eq_beyondRange_iff {p : Plan} {rows : List Row} (hplan : plan query window = .ok p)
    (hrows : ∀ row ∈ rows, row.time.inCalendar = true) :
    p.finish rows = .error .beyondRange ↔ query.function = some "increase" ∧
      ∃ d, query.range = some d ∧ ∃ row ∈ rows, Overreaches row.time d := by
  rw [finish_eq_beyondRange_iff_minus hplan]
  refine and_congr_right fun _ => exists_congr fun d => ?_
  constructor
  · rintro ⟨n, hd, hdn, row, hrow, hminus⟩
    exact ⟨hd, row, hrow, (Time.overreaches_iff (hrows row hrow)).2 ⟨n, hdn, hminus⟩⟩
  · rintro ⟨hd, row, hrow, hover⟩
    obtain ⟨n, hdn, hminus⟩ := (Time.overreaches_iff (hrows row hrow)).1 hover
    exact ⟨n, hd, hdn, row, hrow, hminus⟩

/-! ## Executions

An execution is a chain of steps, and an error is that of the first step that fails. `FailsWith`
has one case for each of them. -/

/-- A source that answers as a function says, and by then is cancelled or not. -/
def Source.ofAnswers (fetch : Fetch → Except Error (List Row)) (cancelled : Bool) : Source Id where
  fetch := fetch
  cancelled := cancelled

/-- The errors with which the execution of a query can end, by the step that fails. -/
inductive FailsWith (fetch : Fetch → Except Error (List Row)) (cancelled : Bool) (text : String)
    (window : Window) : Error → Prop where
  | reading {e : Error} (h : parse text = .error e) : FailsWith fetch cancelled text window e
  | checking {query : Query} {e : Error} (hparse : parse text = .ok query)
    (h : Catalog.builtin.validate query = .error e) : FailsWith fetch cancelled text window e
  | planning {query : Query} {e : Error} (hpasses : Passes text query)
    (h : plan query window = .error e) : FailsWith fetch cancelled text window e
  | fetching {query : Query} {p : Plan} {e : Error} (hpasses : Passes text query)
    (hplan : plan query window = .ok p) (h : fetch p.fetch = .error e) :
    FailsWith fetch cancelled text window (sourceError query.metric e)
  | finishing {query : Query} {p : Plan} {rows : List Row} {e : Error}
    (hpasses : Passes text query) (hplan : plan query window = .ok p)
    (hfetch : fetch p.fetch = .ok rows) (h : p.finish rows = .error e) :
    FailsWith fetch cancelled text window e
  | cancelling {query : Query} {p : Plan} {rows : List Row} {result : QueryResult}
    (hpasses : Passes text query) (hplan : plan query window = .ok p)
    (hfetch : fetch p.fetch = .ok rows) (hfinish : p.finish rows = .ok result)
    (h : cancelled = true) : FailsWith fetch cancelled text window .cancelled

variable {fetch : Fetch → Except Error (List Row)} {cancelled : Bool}

/-- Evaluating a query, as a chain of steps over one answer of the source. -/
theorem evaluate_ofAnswers :
    (evaluate (Source.ofAnswers fetch cancelled) query window : Id (Except Error QueryResult)) =
      if isTime query then .ok ⟨.scalar, [Series.timeSeries window.stop]⟩
      else
        match plan query window with
        | .error e => .error e
        | .ok p =>
          match fetch p.fetch with
          | .error e => .error (sourceError query.metric e)
          | .ok rows =>
            match p.finish rows with
            | .error e => .error e
            | .ok result => if cancelled then .error .cancelled else .ok result := by
  rw [evaluate]
  cases isTime query with
  | true => rfl
  | false => cases plan query window <;> rfl

/-- Executing a text: reading it, checking it and evaluating it. -/
theorem execute_ofAnswers :
    (execute (Source.ofAnswers fetch cancelled) text window : Id (Except Error QueryResult)) =
      match parse text with
      | .error e => .error e
      | .ok query =>
        match Catalog.builtin.validate query with
        | .error e => .error e
        | .ok () => evaluate (Source.ofAnswers fetch cancelled) query window := by
  rw [execute]
  cases parse text with
  | error e => rfl
  | ok query => cases Catalog.builtin.validate query <;> rfl

/-- An execution ends with an error exactly if a step fails with it. -/
theorem execute_eq_error_iff {e : Error} :
    (execute (Source.ofAnswers fetch cancelled) text window : Id (Except Error QueryResult)) =
      .error e ↔ FailsWith fetch cancelled text window e := by
  simp only [execute_ofAnswers, evaluate_ofAnswers]
  constructor
  · -- each split is a step: it fails, or the rest of the chain is reached
    intro h
    split at h
    next hparse =>
      cases h
      exact .reading hparse
    next query hparse =>
    split at h
    next hvalid =>
      cases h
      exact .checking hparse hvalid
    next hvalid =>
    split at h
    next => cases h
    next htime =>
    have hpasses : Passes text query := ⟨hparse, hvalid, Bool.eq_false_iff.2 htime⟩
    split at h
    next hplan =>
      cases h
      exact .planning hpasses hplan
    next p hplan =>
    split at h
    next hfetch =>
      cases h
      exact .fetching hpasses hplan hfetch
    next rows hfetch =>
    split at h
    next hfinish =>
      cases h
      exact .finishing hpasses hplan hfetch hfinish
    next result hfinish =>
    split at h
    next hcancelled =>
      cases h
      exact .cancelling hpasses hplan hfetch hfinish hcancelled
    next => cases h
  -- conversely, each reason names the step and what holds up to it
  · intro h
    cases h with
    | reading h => rw [h]
    | checking hparse h => simp only [hparse, h]
    | planning hpasses h => simp [hpasses.parsed, hpasses.valid, hpasses.notTime, h]
    | fetching hpasses hplan h =>
      simp [hpasses.parsed, hpasses.valid, hpasses.notTime, hplan, h]
    | finishing hpasses hplan hfetch h =>
      simp [hpasses.parsed, hpasses.valid, hpasses.notTime, hplan, hfetch, h]
    | cancelling hpasses hplan hfetch hfinish h =>
      simp [hpasses.parsed, hpasses.valid, hpasses.notTime, hplan, hfetch, hfinish, h]

end Query

end Telemetry
