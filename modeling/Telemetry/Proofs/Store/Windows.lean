import Telemetry.Proofs.Series.Widening
import Telemetry.Proofs.Store.History

/-!
The rows of a metric within a window, and what is computed from them when the window is widened.

Stored times are no leap seconds and fit words, so a store that compares nanoseconds reads what lies
in the window (`fetch_eq_rowsWithin`); only a bound in a leap second counts as the instant with the
same nanoseconds. The rows within a window are those within a wider one that lie in it, in the same
order (`rowsWithin_eq_filter`), so that rates and increases are kept when the window is widened.
-/

set_option autoImplicit false

namespace Telemetry.Store

open Series (Yields KeysTell)
open Time (Instant)

/-! ## Stored times -/

section History

variable {changes : List Change} {m : Metric} (hm : m ∈ (ofHistory changes).metrics.records)

include hm

/-- No stored metric has a leap second for its time. -/
theorem isLeap_of_mem_metrics : m.time.isLeap = false := by
  rw [metrics_ofHistory] at hm
  exact isLeap_of_mem_live (mem_liveMetrics.1 hm)

/-- The time of a stored metric fits a word. -/
theorem fits_of_mem_metrics : Text.Integer.fitsSigned64 m.time.toNanos = true := by
  rw [metrics_ofHistory] at hm
  obtain ⟨r, hr⟩ := exists_admit_of_mem_live (mem_liveMetrics.1 hm)
  have htime : m.time = .ofNanos r.time.toNanos := Record.time_of_admit hr
  rw [htime, Instant.toNanos_ofNanos]
  exact (Record.admit_eq_ok_iff.1 hr).1

end History

/-! ## Rows within a window

A fetch between two instants gives the rows of the metric that have the labels asked for and whose
times lie between the stored forms of these instants, sorted by time. -/

/-- Whether a value is one of a metric between two instants, both included, whose series has some
labels. -/
def liesWithin (metric : String) (labels : Labels) (start stop : Instant) (m : Metric) : Bool :=
  m.name == metric && decide (start ≤ m.time ∧ m.time ≤ stop) && m.seriesLabels.includes labels

/-- The rows of a metric within a window whose series have some labels, by ascending time and, at
one time, in the order of their insertion. -/
def rowsWithin (s : Store) (metric : String) (labels : Labels) (start stop : Instant) : List Row :=
  let selected := s.metrics.records.filter (liesWithin metric labels start stop)
  (selected.mergeSort fun a b => decide (a.time.toNanos ≤ b.time.toNanos)).map rowOf

section Rows

variable {metric : String} {labels : Labels} {start stop : Instant}

/-- When a value lies within a window. -/
theorem liesWithin_iff {m : Metric} : liesWithin metric labels start stop m = true ↔
    (start ≤ m.time ∧ m.time ≤ stop) ∧ m.name = metric ∧ m.seriesLabels.includes labels = true := by
  unfold liesWithin
  rw [Bool.and_eq_true, Bool.and_eq_true, beq_iff_eq, decide_eq_true_eq]
  constructor
  · rintro ⟨⟨hname, hin⟩, hlabels⟩
    exact ⟨hin, hname, hlabels⟩
  · rintro ⟨hin, hname, hlabels⟩
    exact ⟨⟨hname, hin⟩, hlabels⟩

/-- A row within a window is one of a value of the metric. -/
theorem mem_rowsWithin {s : Store} {row : Row} (h : row ∈ s.rowsWithin metric labels start stop) :
    ∃ m ∈ s.metrics.records, m.name = metric ∧ rowOf m = row := by
  obtain ⟨m, hm, rfl⟩ := List.mem_map.1 h
  rw [List.mem_mergeSort, List.mem_filter, liesWithin_iff] at hm
  exact ⟨m, hm.1, hm.2.2.1, rfl⟩

/-- A window holds what lies within a wider one and in itself. -/
theorem liesWithin_eq_and {start' stop' : Instant} (hstart : start' ≤ start) (hstop : stop ≤ stop')
    (m : Metric) : liesWithin metric labels start stop m =
      (decide (start ≤ m.time ∧ m.time ≤ stop) && liesWithin metric labels start' stop' m) := by
  rw [Bool.eq_iff_iff, Bool.and_eq_true, decide_eq_true_eq, liesWithin_iff, liesWithin_iff]
  constructor
  · rintro ⟨hin, hrest⟩
    exact ⟨hin, ⟨Instant.le_trans hstart hin.1, Instant.le_trans hin.2 hstop⟩, hrest⟩
  · rintro ⟨hin, -, hrest⟩
    exact ⟨hin, hrest⟩

/-- **The rows within a window** are those within a wider one that lie in it. -/
theorem rowsWithin_eq_filter (s : Store) {start' stop' : Instant} (hstart : start' ≤ start)
    (hstop : stop ≤ stop') : s.rowsWithin metric labels start stop =
      (s.rowsWithin metric labels start' stop').filter fun row =>
        start ≤ row.time ∧ row.time ≤ stop := by
  have hselected : s.metrics.records.filter (liesWithin metric labels start stop) =
      (s.metrics.records.filter (liesWithin metric labels start' stop')).filter fun m =>
        start ≤ m.time ∧ m.time ≤ stop := by
    rw [List.filter_filter]
    exact List.filter_congr fun m _ => liesWithin_eq_and hstart hstop m
  -- it does not matter whether one sorts before or after leaving rows out
  have hsort := Sorting.mergeSort_filter (fun m : Metric => m.time.toNanos)
    (fun m => decide (start ≤ m.time ∧ m.time ≤ stop))
    (s.metrics.records.filter (liesWithin metric labels start' stop'))
  unfold rowsWithin
  simp only
  rw [List.filter_map, hselected]
  exact congrArg (List.map rowOf) hsort

/-- **What is fetched are the rows within the window** between the bounds as nanoseconds tell
them. -/
theorem fetch_eq_rowsWithin {s : Store} (hleap : ∀ m ∈ s.metrics.records, m.time.isLeap = false)
    (hstart : Text.Integer.fitsSigned64 start.toNanos = true)
    (hstop : Text.Integer.fitsSigned64 stop.toNanos = true) :
    s.fetch false ⟨metric, start, stop, labels⟩ =
      .ok (s.rowsWithin metric labels (.ofNanos start.toNanos) (.ofNanos stop.toNanos)) := by
  have hselected : s.selected ⟨metric, start, stop, labels⟩ = s.metrics.records.filter
      (liesWithin metric labels (.ofNanos start.toNanos) (.ofNanos stop.toNanos)) := by
    apply List.filter_congr
    intro m hm
    have hin : (Instant.ofNanos start.toNanos ≤ m.time ∧ m.time ≤ .ofNanos stop.toNanos) ↔
        start.toNanos ≤ m.time.toNanos ∧ m.time.toNanos ≤ stop.toNanos := by
      rw [Instant.le_iff_toNanos_le (Instant.isLeap_ofNanos _) (hleap m hm),
        Instant.le_iff_toNanos_le (hleap m hm) (Instant.isLeap_ofNanos _),
        Instant.toNanos_ofNanos, Instant.toNanos_ofNanos]
    unfold asksFor liesWithin
    rw [decide_eq_decide.2 hin]
  rw [fetch_eq_ok hstart hstop, hselected]
  rfl

end Rows

/-! ## Wider windows -/

/-- Where keys tell the label sets of a metric apart, they tell those of its rows apart. -/
theorem keysTell_rowsWithin {s : Store} {metric : String}
    (hkeys : KeysTell ((s.metrics.records.filter fun m => m.name = metric).map (·.seriesLabels)))
    (labels : Labels) (start stop : Instant) :
    KeysTell ((s.rowsWithin metric labels start stop).map (·.labels)) := by
  have hmem : ∀ l ∈ (s.rowsWithin metric labels start stop).map (·.labels),
      l ∈ (s.metrics.records.filter fun m => m.name = metric).map (·.seriesLabels) := by
    intro l hl
    obtain ⟨row, hrow, rfl⟩ := List.mem_map.1 hl
    obtain ⟨m, hm, hname, rfl⟩ := mem_rowsWithin hrow
    exact List.mem_map_of_mem (List.mem_filter.2 ⟨hm, decide_eq_true hname⟩)
  intro a ha b hb
  exact hkeys a (hmem a ha) b (hmem b hb)

/-- **Widening a window never changes a computed value.** In a store that any history of changes has
led to, let keys tell the label sets of a metric apart. Then the rates, or the increases, that a
label set has over the rows within a window are among those that it has over the rows within a wider
one, in the same order. What is fetched for a window are the rows within it, a bound in a leap
second being taken for the instant with the same nanoseconds. -/
theorem widening_keeps_changes (changes : List Change) {metric : String} (labels : Labels)
    {range : Int} (hrange : 0 < range)
    (hkeys : KeysTell (((ofHistory changes).metrics.records.filter fun m =>
      m.name = metric).map (·.seriesLabels))) :
    (∀ start stop start' stop' : Instant, start' ≤ start → stop ≤ stop' →
      ∀ f, f = "rate" ∨ f = "increase" → ∀ ls points, points ≠ [] →
        Yields f range stop ((ofHistory changes).rowsWithin metric labels start stop) ls points →
        ∃ points',
          Yields f range stop' ((ofHistory changes).rowsWithin metric labels start' stop') ls
            points' ∧
          points.Sublist points') ∧
    ∀ start stop : Instant, Text.Integer.fitsSigned64 start.toNanos = true →
      Text.Integer.fitsSigned64 stop.toNanos = true →
      (ofHistory changes).fetch false ⟨metric, start, stop, labels⟩ =
        .ok ((ofHistory changes).rowsWithin metric labels (.ofNanos start.toNanos)
          (.ofNanos stop.toNanos)) := by
  refine ⟨?_, ?_⟩
  · intro start stop start' stop' hstart hstop f hf ls points hne h
    have hconvex := Series.convex_between start stop
    have hrowKeys := keysTell_rowsWithin hkeys labels start' stop'
    have hleap : ∀ row ∈ (ofHistory changes).rowsWithin metric labels start' stop',
        row.time.isLeap = false := by
      intro row hrow
      obtain ⟨m, hm, -, rfl⟩ := mem_rowsWithin hrow
      exact isLeap_of_mem_metrics hm
    have hfits : ∀ row ∈ (ofHistory changes).rowsWithin metric labels start' stop',
        Text.Integer.fitsSigned64 row.time.toNanos = true := by
      intro row hrow
      obtain ⟨m, hm, -, rfl⟩ := mem_rowsWithin hrow
      exact fits_of_mem_metrics hm
    -- the rows of the window are those of the wider one that lie in it
    rw [rowsWithin_eq_filter _ hstart hstop] at h
    rcases hf with rfl | rfl
    · exact h.widen_rate hconvex hrowKeys hleap stop'
    · exact h.widen_increase hconvex hrowKeys hleap stop' hfits hrange hne
  · intro start stop hstart hstop
    exact fetch_eq_rowsWithin (fun m hm => isLeap_of_mem_metrics hm) hstart hstop

/-- Three values of one series, four seconds apart. -/
def steadyHistory : List Change :=
  [.insertion .epoch [.metric (valueAt 1 "api"), .metric (valueAt 5 "api"),
    .metric (valueAt 9 "api")]]

/-- The values of the history below. -/
theorem metrics_steadyHistory : (ofHistory steadyHistory).metrics.records =
    [valueAt 1 "api", valueAt 5 "api", valueAt 9 "api"] := by
  have hforms : storedForms [.metric (valueAt 1 "api"), .metric (valueAt 5 "api"),
      .metric (valueAt 9 "api")] = [.metric (valueAt 1 "api"), .metric (valueAt 5 "api"),
      .metric (valueAt 9 "api")] :=
    storedForms_eq_self (by decide) (by decide)
  rw [metrics_ofHistory, liveMetrics, steadyHistory, live, Change.inserts, hforms]
  rfl

/-- The rows of the last two values. -/
def lastRows : List Row := [rowOf (valueAt 5 "api"), rowOf (valueAt 9 "api")]

/-- Those of them in the narrow window. -/
theorem rowsWithin_steadyHistory :
    (ofHistory steadyHistory).rowsWithin "up" .empty (.ofNanos 4000000000) (.ofNanos 9000000000) =
      lastRows := by
  have hselected : [valueAt 1 "api", valueAt 5 "api", valueAt 9 "api"].filter
      (liesWithin "up" .empty (.ofNanos 4000000000) (.ofNanos 9000000000)) =
      [valueAt 5 "api", valueAt 9 "api"] := rfl
  unfold rowsWithin
  simp only
  rw [metrics_steadyHistory, hselected, List.mergeSort_of_pairwise (by decide)]
  rfl

/-- The last of these values has an increase since the one before. -/
theorem yields_increase_lastRows :
    Yields "increase" 4000000000 (.ofNanos 9000000000) lastRows (valueAt 5 "api").seriesLabels
      [⟨.ofNanos 9000000000, 1.0 - 1.0⟩] := by
  have hlabels : ∀ row ∈ lastRows, row.labels = (valueAt 5 "api").seriesLabels := by
    intro row hrow
    rcases List.mem_cons.1 hrow with rfl | hrow
    · rfl
    · obtain rfl := List.mem_singleton.1 hrow
      rfl
  have hrows : Series.rowsOf lastRows (valueAt 5 "api").seriesLabels.key = lastRows := by
    apply List.filter_eq_self.2
    intro row hrow
    exact decide_eq_true (congrArg Labels.key (hlabels row hrow))
  apply (Series.yields_iff (Series.apply_increase (by decide) (by decide) (by decide))).2
  refine ⟨⟨"up", (valueAt 5 "api").seriesLabels, lastRows.map Row.point⟩, ?_, rfl, rfl⟩
  apply Series.mem_ofRows_iff.2
  refine ⟨⟨rowOf (valueAt 5 "api"), congrArg List.head? hrows, rfl, rfl⟩, ?_⟩
  rw [hrows]
  exact ⟨.refl _, by decide, fun _ => rfl⟩

/-- The theorem for an increase over four seconds: a wider window shows it as well. -/
theorem widening_keeps_changes_of_steadyHistory :
    KeysTell (((ofHistory steadyHistory).metrics.records.filter fun m =>
      m.name = "up").map (·.seriesLabels)) ∧
    (ofHistory steadyHistory).fetch false
        ⟨"up", .ofNanos 4000000000, .ofNanos 9000000000, .empty⟩ = .ok lastRows ∧
    Yields "increase" 4000000000 (.ofNanos 9000000000) lastRows (valueAt 5 "api").seriesLabels
      [⟨.ofNanos 9000000000, 1.0 - 1.0⟩] ∧
    ∃ points',
      Yields "increase" 4000000000 (.ofNanos 20000000000)
        ((ofHistory steadyHistory).rowsWithin "up" .empty .epoch (.ofNanos 20000000000))
        (valueAt 5 "api").seriesLabels points' ∧
      [⟨.ofNanos 9000000000, 1.0 - 1.0⟩].Sublist points' := by
  have hkeys : KeysTell (((ofHistory steadyHistory).metrics.records.filter fun m =>
      m.name = "up").map (·.seriesLabels)) := by
    rw [metrics_steadyHistory]
    exact .of_plain (by decide)
  have hrange : (0 : Int) < 4000000000 := by decide
  obtain ⟨hwiden, hfetch⟩ := widening_keeps_changes steadyHistory .empty hrange hkeys
  have hnarrow := hfetch (.ofNanos 4000000000) (.ofNanos 9000000000) (by decide) (by decide)
  rw [Instant.toNanos_ofNanos, Instant.toNanos_ofNanos, rowsWithin_steadyHistory] at hnarrow
  refine ⟨hkeys, hnarrow, yields_increase_lastRows, ?_⟩
  apply hwiden (.ofNanos 4000000000) (.ofNanos 9000000000) .epoch _ (by decide) (by decide)
    "increase" (.inr rfl) _ _ (List.cons_ne_nil _ _)
  rw [rowsWithin_steadyHistory]
  exact yields_increase_lastRows

end Telemetry.Store
