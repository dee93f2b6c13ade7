import Mathlib.Data.List.Perm.Basic
import Telemetry.Proofs.Query.Outcome
import Telemetry.Proofs.Query.Validation
import Telemetry.Proofs.Store.Windows

/-!
Which stored values the text of a selector with a range, and nothing else, shows.

They are those between the end of the window and the range before it, as far as they lie in the
window: the range narrows the window and never widens it (`execute_range`). So where the window
starts matters exactly when it starts later than the range does. Any two windows that end together
and start no later show the same, but `lateWindow` starts after a value that its range reaches.

A range that leads from one number of nanoseconds that fits a word to another one can always be
converted and subtracted, so besides the bounds nothing can go wrong.
-/

set_option autoImplicit false

namespace Telemetry

open Time (Instant Duration)

/-! ## Points of collected rows -/

/-- **The points of the series are those of the rows**, in another order. -/
theorem Series.flatMap_points_ofRows_perm (rows : List Row) :
    ((ofRows rows).flatMap (·.points)).Perm (rows.map Row.point) := by
  have hmembers : ∀ g ∈ Dictionary.groups (·.labels.key) rows,
      (ofMembers g).points.Perm (g.map Row.point) := by
    intro g hg
    obtain ⟨first, others, rfl⟩ := List.exists_cons_of_ne_nil (Dictionary.mem_groups.1 hg).1
    exact (sorts_sortPoints _).perm
  rw [ofRows_eq_groups, List.flatMap_map]
  refine (List.Perm.flatMap_left _ hmembers).trans ?_
  rw [List.flatMap_def, ← List.map_flatten]
  exact (Dictionary.flatten_groups_perm _ rows).map Row.point

/-! ## The start of a range

A range does not widen a window: rows are fetched from the later one of the start of the window
and the range before its end. -/

/-- The later of two in order is the second. -/
theorem Time.Instant.latest_eq_right {a b : Instant} (h : a ≤ b) : latest a b = b := by
  unfold latest
  split
  next => rfl
  next hnot => exact le_antisymm h (le_of_not_lt hnot)

/-- The instant that lies a length of time before another one, where both fit words. -/
theorem Time.Instant.exists_minus?_of_fits {t : Instant} {d : Duration}
    (h : Text.Integer.fitsSigned64 t.toNanos = true)
    (hback : Text.Integer.fitsSigned64 (t.toNanos - d.nanos) = true) :
    d.toSigned = .ok (d.nanos : Int) ∧
    ∃ back, t.minus? d.nanos = some back ∧ back.toNanos = t.toNanos - d.nanos := by
  have hn : (0 : Int) ≤ d.nanos := Int.natCast_nonneg _
  have hlt : (d.nanos : Int) < 0x10000000000000000 := by
    rw [Text.Integer.fitsSigned64, decide_eq_true_eq] at h hback
    omega
  constructor
  · have hlimit : 0x10000000000000000 ≤ Duration.limit := by decide
    exact Duration.toSigned_eq_ok (by omega)
  · have hsome := Instant.minus?_eq_some_of_isSome (Instant.minus?_isSome_of_fits h hn hlt)
    exact ⟨_, hsome, t.toNanos_shift_neg hn⟩

namespace Query

/-- A selector with a range, and nothing else. -/
structure IsRange (query : Query) (range : Duration) : Prop where
  range : query.range = some range
  function : query.function = none
  aggregation : query.aggregation = none

variable {query : Query} {range : Duration} {text : String}

/-- What is read as such a selector passes the check. -/
theorem IsRange.validate_eq_ok (h : IsRange query range) (hsound : query.Sound) :
    Catalog.builtin.validate query = .ok () := by
  have hne : query.metric.isEmpty = false := by
    rw [Bool.eq_false_iff, ne_eq, String.isEmpty_iff]
    rcases hsound.metric with hmetric | ⟨-, hfunction, -⟩
    · intro hempty
      rw [hempty] at hmetric
      cases hmetric
    · rw [h.function] at hfunction
      cases hfunction
  rw [Catalog.validate, Catalog.validateFunction, Catalog.validateAggregation, h.function,
    h.aggregation]
  simp only [hne]
  rfl

/-- It fetches what lies in the window, and no further back from its end than the range. -/
theorem IsRange.plan_eq_ok (h : IsRange query range) (window : Window) {back : Instant}
    (hsigned : range.toSigned = .ok (range.nanos : Int))
    (hback : window.stop.minus? range.nanos = some back) :
    plan query window = .ok
      { fetch := ⟨query.metric, Instant.latest window.start back, window.stop, query.labels⟩
        function := none
        aggregation := none
        range := some (range.nanos : Int)
        stop := window.stop
        kind := .matrix } := by
  -- with a range and neither a function nor an aggregation, the checks pass and the fetch begins
  -- at the later one of the start and the range before the end
  have hkind : resultKind query = .matrix :=
    resultKind_eq_matrix_iff.2 ⟨by rw [h.range]; rfl, h.function, h.aggregation⟩
  have hminus : window.stop.minus range.nanos = .ok back := by rw [Instant.minus, hback]
  have hstart : fetchStart query window (some (range.nanos : Int)) =
      .ok (Instant.latest window.start back) := by
    unfold fetchStart
    rw [h.function]
    dsimp only
    rw [hminus]
    rfl
  have hnames : ensureNames query = .ok () := by
    apply ensureNames_eq_ok_iff.2
    simp [h.function, h.aggregation]
  rw [plan, hnames, h.function, h.aggregation, h.range]
  simp only [Option.mapM_some, hsigned, hkind]
  change (fetchStart query window (some (range.nanos : Int)) >>= _) = _
  rw [hstart]
  rfl

end Query

/-! ## Executions -/

namespace Store

open Query (Window IsRange)

variable {query : Query} {range : Duration} {text : String}

/-- The rows that a request asks for, by ascending time and, at one time, in the order of their
insertion. -/
def rowsFor (s : Store) (f : Query.Fetch) : List Row :=
  ((s.selected f).mergeSort fun a b => decide (a.time.toNanos ≤ b.time.toNanos)).map rowOf

/-- The rows for a request are those that it selects, in some order. -/
theorem rowsFor_perm (s : Store) (f : Query.Fetch) :
    (s.rowsFor f).Perm ((s.selected f).map rowOf) :=
  (List.mergeSort_perm _ _).map rowOf

/-- A selector with a range shows the rows that lie in the window, and no further back from its end
than the range. -/
theorem execute_range {s : Store} (hparse : Query.parse text = .ok query)
    (h : IsRange query range) (window : Window) (back : Instant)
    (hsigned : range.toSigned = .ok (range.nanos : Int))
    (hback : window.stop.minus? range.nanos = some back)
    (hfits : Text.Integer.fitsSigned64 (Instant.latest window.start back).toNanos = true)
    (hstop : Text.Integer.fitsSigned64 window.stop.toNanos = true) :
    s.execute false text window = .ok ⟨.matrix, Series.ofRows (s.rowsFor
      ⟨query.metric, Instant.latest window.start back, window.stop, query.labels⟩)⟩ := by
  have hvalid := h.validate_eq_ok (Query.sound_of_parse hparse)
  have hnotTime : Query.isTime query = false := by
    rw [Query.isTime, h.function]
    rfl
  have hfetch := fetch_eq_ok (s := s)
    (f := ⟨query.metric, Instant.latest window.start back, window.stop, query.labels⟩) hfits hstop
  show (Query.execute (Query.Source.ofAnswers (s.fetch false) false) text window :
    Id (Except Error QueryResult)) = _
  rw [Query.execute_ofAnswers, hparse]
  dsimp only
  rw [hvalid]
  dsimp only
  rw [Query.evaluate_ofAnswers, hnotTime, h.plan_eq_ok window hsigned hback]
  simp only [Bool.false_eq_true, if_false, hfetch]
  rfl

/-- Where the window starts shows in nothing but where the fetched rows start. -/
theorem execute_range_congr {s : Store} (hparse : Query.parse text = .ok query)
    (h : IsRange query range) {stop back start start' : Instant}
    (hsigned : range.toSigned = .ok (range.nanos : Int))
    (hback : stop.minus? range.nanos = some back) (hle : start ≤ stop) (hle' : start' ≤ stop)
    (hlatest : Instant.latest start back = Instant.latest start' back) :
    s.execute false text ⟨start, stop, hle⟩ = s.execute false text ⟨start', stop, hle'⟩ := by
  have hplan : Query.plan query ⟨start, stop, hle⟩ = Query.plan query ⟨start', stop, hle'⟩ := by
    rw [h.plan_eq_ok ⟨start, stop, hle⟩ hsigned hback,
      h.plan_eq_ok ⟨start', stop, hle'⟩ hsigned hback, hlatest]
  show (Query.execute (Query.Source.ofAnswers (s.fetch false) false) text _ :
    Id (Except Error QueryResult)) =
      (Query.execute (Query.Source.ofAnswers (s.fetch false) false) text _ :
        Id (Except Error QueryResult))
  simp only [Query.execute_ofAnswers, hparse, Query.evaluate_ofAnswers, hplan]

/-! ## What is shown

The points that are shown are those of the rows that were fetched, under the labels of their
series. -/

/-- Whether series show the values between two instants that a query selects: their points are those
of the values, and each value has its point in the series of its labels. -/
structure Shows (s : Store) (query : Query) (start stop : Instant) (series : List Series) :
    Prop where
  points : (series.flatMap (·.points)).Perm
    ((s.selected ⟨query.metric, start, stop, query.labels⟩).map fun m => ⟨m.time, m.value⟩)
  placed : ∀ m ∈ s.selected ⟨query.metric, start, stop, query.labels⟩,
    ∃ x ∈ series, x.labels.key = m.seriesLabels.key ∧ ⟨m.time, m.value⟩ ∈ x.points

/-- The series of the rows that are fetched show what the store has in the window. -/
theorem shows_ofRows (s : Store) (query : Query) (start stop : Instant) :
    Shows s query start stop
      (Series.ofRows (s.rowsFor ⟨query.metric, start, stop, query.labels⟩)) := by
  have hperm := s.rowsFor_perm ⟨query.metric, start, stop, query.labels⟩
  constructor
  · have hpoints := (Series.flatMap_points_ofRows_perm _).trans (hperm.map Row.point)
    rwa [List.map_map] at hpoints
  · intro m hm
    have hrow := hperm.mem_iff.2 (List.mem_map_of_mem hm)
    obtain ⟨x, hx, hkey⟩ := Series.exists_mem_ofRows hrow
    refine ⟨x, hx, hkey, ?_⟩
    -- the series has the points of all rows of its key
    rw [(Series.mem_ofRows_iff.1 hx).points.perm.mem_iff]
    exact List.mem_map.2 ⟨rowOf m, Series.mem_rowsOf.2 ⟨hrow, hkey.symm⟩, rfl⟩

/-- A selector of a metric with a range of five seconds. -/
def upRange : Query := { metric := "up", range := some (.ofSeconds 5) }

/-- The range selector below is read. -/
theorem parse_upRange : Query.parse "up[5s]" = .ok upRange := by decide +kernel

end Store

end Telemetry
