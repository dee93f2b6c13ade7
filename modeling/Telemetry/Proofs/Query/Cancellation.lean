import Telemetry.Proofs.Query.Validation

/-!
Evaluation is all or nothing, whatever the source does and whenever the query is cancelled.

The surroundings of an evaluation are a state that the source changes when it is asked, and that
changes by itself before the evaluation looks whether it has been cancelled; cancelled it stays
(`World`). What is asked of the source is written down on the way, so that a run is known by its
outcome and by this list. A plan decides both: without one nothing is asked
(`World.run_of_plan_error`), and with one there is a single request, which the plan made from the
query and the window (`World.run_of_plan_ok`). That a cancelled query has no result needs only the
last step, since no earlier moment is forgotten by then.
-/

set_option autoImplicit false

namespace Telemetry

open Fallible
open Time (Instant Duration)

namespace Query

variable {query : Query} {window : Window}

/-! ## Refusals

A query is refused for what it says, before the source is asked: an unknown function, an unknown
aggregation, or a range that is too long. -/

/-- The reasons for which a query is refused before the source is asked, each with its error. -/
inductive Refusal (query : Query) : Error → Prop where
  | function {name : String} (h : query.function = some name)
    (hname : name ∉ Series.functions ∧ name ∉ Series.aggregations) :
    Refusal query (.unsupported (.function name))
  | aggregation {a : Aggregation} (h : query.aggregation = some a)
    (hname : a.operation ∉ Series.aggregations) :
    Refusal query (.unsupported (.aggregation a.operation))
  | range {d : Duration} (h : query.range = some d) (hlong : d.toSigned? = none) :
    Refusal query (.invalidArgument .durationTooLong)

/-- A name that is not listed is a reason. -/
theorem refusal_of_ensureNames_error {e : Error} (h : ensureNames query = .error e) :
    Refusal query e := by
  rcases ensureNames_eq_error_iff.1 h with ⟨name, hname, h⟩ | ⟨-, a, ha, h⟩
  · obtain ⟨hunlisted, rfl⟩ := Series.ensureFunction_eq_error_iff.1 h
    exact .function hname hunlisted
  · obtain ⟨hunlisted, rfl⟩ := Series.ensureAggregation_eq_error_iff.1 h
    exact .aggregation ha hunlisted

/-- A range that is too long is a reason to refuse a query. -/
theorem refusal_of_range_error {e : Error}
    (h : query.range.mapM Duration.toSigned = .error e) : Refusal query e := by
  obtain ⟨d, hd, h⟩ := mapM_eq_error_iff.1 h
  obtain ⟨hlong, rfl⟩ := Duration.toSigned_eq_error_iff.1 h
  exact .range hd hlong

/-- What a plan asks for lies within the window. -/
theorem fetchStart_within {range : Option Int} {start : Instant}
    (hrange : ∀ n, range = some n → 0 ≤ n) (h : fetchStart query window range = .ok start) :
    window.start ≤ start ∧ start ≤ window.stop := by
  unfold fetchStart at h
  split at h
  next n _ =>
    obtain ⟨t, ht, h⟩ := bind_eq_ok h
    cases h
    have hle := Instant.le_of_minus_eq_ok (hrange n rfl) ht
    exact ⟨Instant.le_latest_left _ _, Instant.latest_le window.ordered hle⟩
  next =>
    cases h
    exact ⟨Instant.le_refl _, window.ordered⟩

/-- Whether a request asks for what a query is about, within a window up to its end. -/
structure Asks (query : Query) (window : Window) (f : Fetch) : Prop where
  metric : f.metric = query.metric
  labels : f.labels = query.labels
  stop : f.stop = window.stop
  start_le : window.start ≤ f.start
  le_stop : f.start ≤ window.stop

/-- A query is refused, or its range has no result without a function, or it is planned. -/
theorem plan_cases (query : Query) (window : Window) :
    (∃ e, Refusal query e ∧ plan query window = .error e) ∨
    (∀ e, ¬ Refusal query e) ∧
      (plan query window = .error .beyondRange ∧ RangeFailure query window [] .beyondRange ∨
        ∃ p, plan query window = .ok p ∧ Asks query window p.fetch) := by
  -- the checks in their order: the names, the length of the range, and where the rows begin
  cases hnames : ensureNames query with
  | error e =>
    left
    refine ⟨e, refusal_of_ensureNames_error hnames, ?_⟩
    rw [plan, hnames]
    rfl
  | ok _ =>
  cases hrange : query.range.mapM Duration.toSigned with
  | error e =>
    left
    refine ⟨e, refusal_of_range_error hrange, ?_⟩
    rw [plan, hnames, hrange]
    rfl
  | ok range =>
  right
  constructor
  · obtain ⟨hfunctions, haggregations⟩ := ensureNames_eq_ok_iff.1 hnames
    -- what has been checked excludes each reason for a refusal
    rintro _ (⟨h, hname⟩ | ⟨h, hname⟩ | ⟨h, hlong⟩)
    · exact not_or.2 hname (hfunctions _ h)
    · exact hname (haggregations _ h)
    · simp [h, Duration.toSigned, hlong] at hrange
  · have hsigned (n : Int) (hn : range = some n) :
        ∃ d, query.range = some d ∧ d.toSigned = .ok n := by
      rw [hn] at hrange
      exact mapM_eq_ok_some_iff.1 hrange
    cases hstart : fetchStart query window range with
    | error e =>
      left
      obtain ⟨rfl, hnone, n, rfl, hminus⟩ := fetchStart_eq_error_iff.1 hstart
      obtain ⟨d, hd, hn⟩ := hsigned n rfl
      refine ⟨?_, .stop hnone hd (Duration.toSigned_eq_ok_iff.1 hn) hminus⟩
      rw [plan, hnames, hrange]
      change fetchStart query window _ >>= _ = _
      rw [hstart]
      rfl
    | ok start =>
      right
      have hnonneg (n : Int) (hn : range = some n) : 0 ≤ n := by
        obtain ⟨d, -, hn⟩ := hsigned n hn
        rw [(Duration.of_toSigned_eq_ok hn).2]
        exact Int.natCast_nonneg _
      obtain ⟨hfrom, hto⟩ := fetchStart_within hnonneg hstart
      refine ⟨⟨⟨query.metric, start, window.stop, query.labels⟩, query.function,
        query.aggregation, range, window.stop, resultKind query⟩, ?_, ⟨rfl, rfl, rfl, hfrom, hto⟩⟩
      rw [plan, hnames, hrange]
      change fetchStart query window _ >>= _ = _
      rw [hstart]
      rfl

/-- An error of the source is one of the evaluation, unless it is a cancellation. -/
theorem sourceError_of_ne_cancelled {metric : String} {e : Error} (h : e ≠ .cancelled) :
    sourceError metric e = .evaluation metric e := by
  unfold sourceError
  split
  next => contradiction
  next => rfl

/-! ## Runs

The source acts on a state of its own and may be cancelled at any moment. A run keeps account of
what it was asked. -/

/-- The surroundings of an evaluation. A source may do anything with their state, which may also
change by itself before the evaluation looks whether it has been cancelled. -/
structure World (σ : Type) where
  answer : Fetch → σ → Except Error (List Row) × σ
  pass : σ → σ
  cancelled : σ → Bool
  cancelled_answer : ∀ f s, cancelled s = true → cancelled (answer f s).2 = true
  cancelled_pass : ∀ s, cancelled s = true → cancelled (pass s) = true

/-- A state of the surroundings, and what has been asked of the source so far. -/
structure Trace (σ : Type) where
  state : σ
  asked : List Fetch

namespace World

variable {σ : Type} (w : World σ)

/-- The source that writes down what it is asked. -/
def source : Source (StateM (Trace σ)) where
  fetch f := fun t =>
    let (rows, state) := w.answer f t.state
    (rows, ⟨state, t.asked ++ [f]⟩)
  cancelled := fun t =>
    let state := w.pass t.state
    (w.cancelled state, { t with state })

/-- The outcome of an evaluation that begins in a state, and what it leaves. -/
def run (query : Query) (window : Window) (s : σ) : Except Error QueryResult × Trace σ :=
  (evaluate w.source query window).run ⟨s, []⟩

/-- What becomes of an answer under a plan. -/
def conclude (query : Query) (p : Plan) (s : σ) :
    Except Error (List Row) → Except Error QueryResult
  | .error e => .error (sourceError query.metric e)
  | .ok rows =>
    match p.finish rows with
    | .error e => .error e
    | .ok result => if w.cancelled (w.pass s) then .error .cancelled else .ok result

/-- A query that cannot be planned asks for nothing. -/
theorem run_of_plan_error {e : Error} (htime : isTime query = false)
    (hplan : plan query window = .error e) (s : σ) :
    w.run query window s = (.error e, ⟨s, []⟩) := by
  rw [run, evaluate, htime, hplan]
  rfl

/-- A plan decides the run: one request, and what becomes of its answer. -/
theorem run_of_plan_ok {p : Plan} (htime : isTime query = false)
    (hplan : plan query window = .ok p) (s : σ) :
    ∃ s', w.run query window s =
      (w.conclude query p (w.answer p.fetch s).2 (w.answer p.fetch s).1, ⟨s', [p.fetch]⟩) := by
  rw [run, evaluate, htime, hplan]
  change ∃ s', StateT.run (w.source.fetch p.fetch >>= _) _ = _
  rw [StateT.run_bind]
  rcases hanswer : w.answer p.fetch s with ⟨answer, s'⟩
  -- the one question to the source is noted, with the state of the world after it
  have hfetch : (w.source.fetch p.fetch).run ⟨s, []⟩ = (answer, ⟨s', [p.fetch]⟩) := by
    simp only [source, StateT.run, hanswer]
    rfl
  rw [hfetch]
  dsimp only [bind, conclude]
  cases answer with
  | error e => exact ⟨s', rfl⟩
  | ok rows =>
    dsimp only
    cases p.finish rows with
    | error e => exact ⟨s', rfl⟩
    | ok result =>
      -- the clock of the world is looked at once more before the result is given out
      have hlook : w.source.cancelled.run ⟨s', [p.fetch]⟩ =
          (w.cancelled (w.pass s'), ⟨w.pass s', [p.fetch]⟩) := rfl
      refine ⟨w.pass s', ?_⟩
      change StateT.run (w.source.cancelled >>= _) _ = _
      rw [StateT.run_bind, hlook]
      cases w.cancelled (w.pass s') <;> rfl

/-- Whether the query has been cancelled at some moment of a run before its last step: when it
begins, when the source has answered, or when the evaluation looks. -/
def CancelledWithin (query : Query) (window : Window) (s : σ) : Prop :=
  w.cancelled s = true ∨ ∃ f ∈ (w.run query window s).2.asked,
    w.cancelled (w.answer f s).2 = true ∨ w.cancelled (w.pass (w.answer f s).2) = true

/-- By the last step no earlier moment has been forgotten. -/
theorem cancelled_of_cancelledWithin {s : σ} {f : Fetch}
    (hasked : (w.run query window s).2.asked = [f]) (h : w.CancelledWithin query window s) :
    w.cancelled (w.pass (w.answer f s).2) = true := by
  unfold CancelledWithin at h
  rw [hasked] at h
  rcases h with h | ⟨f', hf', h | h⟩
  · exact w.cancelled_pass _ (w.cancelled_answer f s h)
  · rw [List.mem_singleton.1 hf'] at h
    exact w.cancelled_pass _ h
  · rwa [List.mem_singleton.1 hf'] at h

/-- After a cancellation there is no result, whatever the source answered. -/
theorem conclude_of_cancelled {p : Plan} {s : σ} (h : w.cancelled (w.pass s) = true)
    (answer : Except Error (List Row)) : ∃ e, w.conclude query p s answer = .error e := by
  unfold conclude
  cases answer with
  | error e => exact ⟨_, rfl⟩
  | ok rows =>
    dsimp only
    cases p.finish rows with
    | error e => exact ⟨_, rfl⟩
    | ok result => exact ⟨_, if_pos h⟩

/-- With a plan, only the answer can make the arithmetic go wrong. -/
theorem of_conclude_eq_beyondRange {p : Plan} (hplan : plan query window = .ok p) {s : σ}
    {answer : Except Error (List Row)} (h : w.conclude query p s answer = .error .beyondRange) :
    ∃ rows, answer = .ok rows ∧ RangeFailure query window rows .beyondRange := by
  unfold conclude at h
  split at h
  next e =>
    cases e <;> cases h
  next rows =>
    refine ⟨rows, rfl, ?_⟩
    split at h
    next e hfinish =>
      cases h
      obtain ⟨hfunction, d, n, hd, hn, row, hrow, hminus⟩ :=
        (finish_eq_beyondRange_iff_minus hplan).1 hfinish
      exact .row hfunction hd (Duration.toSigned_eq_ok_iff.1 hn) hrow hminus
    next =>
      split at h <;> cases h

end World

/-! ## Evaluation -/

/-- **Evaluation is all or nothing.** However the surroundings behave, the evaluation of a query
other than the bare function `time` asks the source at most once, and not at all if there is a
reason to refuse the query; then it is refused for such a reason. What it asks for is what the query
is about, up to the end of the window and not from before its start. An error of the source is its
outcome, and a query that has been cancelled in time has no result. Only where the range cannot be
subtracted from an instant does the calendar end a run. -/
theorem evaluate_all_or_nothing {σ : Type} (w : World σ) (s : σ) (query : Query) (window : Window)
    (hquery : ¬ (query.function = some "time" ∧ query.aggregation = none)) :
    let outcome := (w.run query window s).1
    let asked := (w.run query window s).2.asked
    asked.length ≤ 1 ∧
    ((∃ e, Refusal query e) → asked = [] ∧ ∃ e, Refusal query e ∧ outcome = .error e) ∧
    (asked = [] → (∃ e, Refusal query e) ∨ RangeFailure query window [] .beyondRange) ∧
    (∀ f ∈ asked, Asks query window f ∧
      ∀ e, (w.answer f s).1 = .error e →
        (e = .cancelled → outcome = .error .cancelled) ∧
        (e ≠ .cancelled → outcome = .error (.evaluation query.metric e))) ∧
    (w.CancelledWithin query window s → ∃ e, outcome = .error e) ∧
    (outcome = .error .beyondRange → RangeFailure query window [] .beyondRange ∨
      ∃ f ∈ asked, ∃ rows, (w.answer f s).1 = .ok rows ∧
        RangeFailure query window rows .beyondRange) := by
  intro outcome asked
  have htime : isTime query = false := Bool.eq_false_iff.2 (mt isTime_iff.1 hquery)
  -- a query is refused, cannot be planned, or asks exactly one question
  rcases plan_cases query window with
    ⟨e, hrefusal, hplan⟩ | ⟨hnone, ⟨hplan, hfails⟩ | ⟨p, hplan, hasks⟩⟩
  · have hrun := w.run_of_plan_error htime hplan s
    have houtcome : outcome = .error e := congrArg Prod.fst hrun
    have hasked : asked = [] := congrArg (fun r => r.2.asked) hrun
    rw [houtcome, hasked]
    refine ⟨Nat.zero_le _, fun _ => ⟨rfl, e, hrefusal, rfl⟩, fun _ => .inl ⟨e, hrefusal⟩, nofun,
      fun _ => ⟨e, rfl⟩, fun h => ?_⟩
    -- no reason for a refusal is a failure of the arithmetic
    cases h
    cases hrefusal
  · have hrun := w.run_of_plan_error htime hplan s
    have houtcome : outcome = .error .beyondRange := congrArg Prod.fst hrun
    have hasked : asked = [] := congrArg (fun r => r.2.asked) hrun
    rw [houtcome, hasked]
    exact ⟨Nat.zero_le _, fun ⟨e, he⟩ => absurd he (hnone e), fun _ => .inr hfails, nofun,
      fun _ => ⟨_, rfl⟩, fun _ => .inl hfails⟩
  · obtain ⟨s', hrun⟩ := w.run_of_plan_ok htime hplan s
    have houtcome : outcome = w.conclude query p (w.answer p.fetch s).2 (w.answer p.fetch s).1 :=
      congrArg Prod.fst hrun
    have hasked : asked = [p.fetch] := congrArg (fun r => r.2.asked) hrun
    refine ⟨?_, fun ⟨e, he⟩ => absurd he (hnone e), fun h => ?_, fun f hf => ?_, fun h => ?_,
      fun h => .inr ?_⟩
    · rw [hasked]
      exact Nat.le_refl 1
    · exact absurd (hasked.symm.trans h) (List.cons_ne_nil _ _)
    · rw [hasked, List.mem_singleton] at hf
      rw [houtcome, hf]
      refine ⟨hasks, fun e he => ?_⟩
      rw [he, World.conclude]
      refine ⟨?_, fun hne => congrArg _ (sourceError_of_ne_cancelled hne)⟩
      rintro rfl
      rfl
    · rw [houtcome]
      exact w.conclude_of_cancelled (w.cancelled_of_cancelledWithin hasked h) _
    · rw [houtcome] at h
      obtain ⟨rows, hrows, hfails⟩ := w.of_conclude_eq_beyondRange hplan h
      exact ⟨p.fetch, hasked ▸ List.mem_singleton_self _, rows, hrows, hfails⟩

/-- A source that answers with a row, and meanwhile the query is cancelled. -/
def interrupted : World Bool where
  answer := fun f _ => (.ok [⟨f.metric, f.start, 1.0, f.labels⟩], true)
  pass := id
  cancelled := id
  cancelled_answer := fun _ _ _ => rfl
  cancelled_pass := fun _ h => h

/-- The values of a metric in the last five minutes. -/
def lastMinutes : Query where
  metric := "up"
  range := some (.ofSeconds 300)

/-- The theorem for a query that is cancelled while its rows are fetched. -/
theorem evaluate_all_or_nothing_of_interrupted :
    ¬ (lastMinutes.function = some "time" ∧ lastMinutes.aggregation = none) ∧
    (interrupted.run lastMinutes ⟨.epoch, .ofNanos 600000000000, by decide⟩ false).2.asked.length
      ≤ 1 ∧
    ∃ e, (interrupted.run lastMinutes ⟨.epoch, .ofNanos 600000000000, by decide⟩ false).1 =
      .error e := by
  have hquery : ¬ (lastMinutes.function = some "time" ∧ lastMinutes.aggregation = none) := nofun
  obtain ⟨honce, -, -, -, hcancelled, -⟩ := evaluate_all_or_nothing interrupted false lastMinutes
    ⟨.epoch, .ofNanos 600000000000, by decide⟩ hquery
  exact ⟨hquery, honce, hcancelled (.inr ⟨_, List.mem_singleton_self _, .inl rfl⟩)⟩

end Query

end Telemetry
