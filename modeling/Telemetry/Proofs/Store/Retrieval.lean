import Telemetry.Proofs.Otlp.Units
import Telemetry.Proofs.Query.Selector
import Telemetry.Proofs.Series.Identity
import Telemetry.Proofs.Store.Insertion
import Telemetry.Proofs.Store.Selection

/-!
A value that was written is found again by the selector made of its own labels.

The way goes through every part of the library: the value is stored as it is, since an instant that
is no leap second and fits a word survives the store; the selector is read back as the name and the
labels of its series; all rows that are fetched for it have at least these labels; and of such rows
only those with exactly these labels have the same key, so the series of the value bears its labels
and no others. The last step is where a collision of keys could have done harm, and it does none,
because a label set never has the key of one that it properly includes.
-/

set_option autoImplicit false

namespace Telemetry

open Time (Instant)

/-! ## Values that the store keeps -/

/-- A value whose time fits a word may be stored. -/
theorem Metric.admit_eq_ok {m : Metric} (h : Text.Integer.fitsSigned64 m.time.toNanos = true) :
    Record.admit (.metric m) = .ok (.metric { m with time := .ofNanos m.time.toNanos }) :=
  Record.admit_eq_ok_iff.2 ⟨h, trivial, rfl⟩

/-- A value whose time is moreover no leap second is stored as it is. -/
theorem Metric.admit_eq_self {m : Metric} (hleap : m.time.isLeap = false)
    (h : Text.Integer.fitsSigned64 m.time.toNanos = true) :
    Record.admit (.metric m) = .ok (.metric m) := by
  rw [admit_eq_ok h, Instant.ofNanos_toNanos hleap]

namespace Store

/-! ## Values that are written -/

/-- A value that is stored as it is stands in the store after the insertion of its list. -/
theorem mem_metrics_insertEach {s : Store} {writes : List (Instant × List Record)} {now : Instant}
    {rs : List Record} {m : Metric} (hwrite : (now, rs) ∈ writes) (haccepts : Accepts rs)
    (hm : .metric m ∈ rs) (hself : Record.admit (.metric m) = .ok (.metric m)) :
    m ∈ (s.insertEach writes).metrics.records := by
  obtain ⟨i, hi, hget⟩ := List.getElem_of_mem hm
  have hforms := storedForms_of_accepts haccepts
  have hlen : i < (storedForms rs).length := hforms.length_eq ▸ hi
  have hstored : .metric m ∈ storedForms rs := by
    have hat := hforms.get hi hlen
    simp only [List.get_eq_getElem, hget, hself, Except.ok.injEq] at hat
    rw [hat]
    exact List.getElem_mem hlen
  -- later insertions only add to the contents
  have hcontents := congrArg Contents.metrics (s.contents_insertEach writes)
  show m ∈ (s.insertEach writes).contents.metrics
  rw [hcontents, Contents.append, List.mem_append, List.mem_filterMap]
  exact .inr ⟨.metric m, List.mem_flatMap.2 ⟨(now, rs), hwrite, hstored⟩, rfl⟩

/-! ## Execution of a selector -/

/-- The text of a selector is executed by fetching its rows over the whole window and grouping
them. -/
theorem execute_selectorText {s : Store} {metric : String} {labels : Labels}
    {window : Query.Window} {rows : List Row}
    (hmetric : Query.isMetricName metric.toList = true)
    (hlabels : ∀ e ∈ labels.entries, Query.isLabelName e.1.toList = true)
    (hrows : s.fetch false ⟨metric, window.start, window.stop, labels⟩ = .ok rows) :
    s.execute false (Query.selectorText metric labels) window =
      .ok ⟨.vector, Series.ofRows rows⟩ := by
  have hne : metric.isEmpty = false := by
    rw [Bool.eq_false_iff, ne_eq, String.isEmpty_iff]
    rintro rfl
    cases hmetric
  -- a selector passes the checks, and its plan fetches over the window as it is
  have hvalid : Query.Catalog.builtin.validate { metric, labels } = .ok () := by
    rw [Query.Catalog.validate, Query.Catalog.validateFunction, hne]
    rfl
  have hplan : Query.plan { metric, labels } window = .ok
      { fetch := ⟨metric, window.start, window.stop, labels⟩, function := none,
        aggregation := none, range := none, stop := window.stop, kind := .vector } := by
    rfl
  rw [execute, Query.execute, Query.parse_selectorText hmetric hlabels]
  simp only [hvalid, Query.evaluate, Query.isTime, hplan, source]
  rw [show (pure : _ → Id _) = id from rfl]
  simp [hrows, Query.Plan.finish]
  rfl

/-! ## The series of a value -/

/-- Among rows that all include the labels of one of them, this one is in the series that has
exactly its labels. -/
theorem exists_series_of_row {rows : List Row} {row : Row} (hrow : row ∈ rows)
    (hincl : ∀ other ∈ rows, row.labels.entries ⊆ other.labels.entries) :
    ∃ series ∈ Series.ofRows rows, series.labels = row.labels ∧ row.point ∈ series.points := by
  -- the group of the rows that have the key of this one
  let g := rows.filter fun other => other.labels.key = row.labels.key
  have hmem : row ∈ g := List.mem_filter.2 ⟨hrow, by simp⟩
  have hg : g ∈ Dictionary.groups (·.labels.key) rows :=
    Dictionary.mem_groups.2 ⟨List.ne_nil_of_mem hmem, row.labels.key, rfl⟩
  obtain ⟨first, others, hcons⟩ := List.exists_cons_of_ne_nil (List.ne_nil_of_mem hmem)
  have hfirst : first ∈ rows ∧ first.labels.key = row.labels.key := by
    have hhead : first ∈ g := hcons ▸ List.mem_cons_self
    simpa [g] using hhead
  refine ⟨Series.ofMembers g, ?_, ?_, ?_⟩
  · rw [Series.ofRows_eq_groups]
    exact List.mem_map_of_mem hg
  · rw [hcons, Series.ofMembers]
    exact Labels.eq_of_subset_of_key_eq (hincl first hfirst.1) hfirst.2
  · rw [hcons, Series.ofMembers, sortPoints, List.mem_mergeSort, ← hcons]
    exact List.mem_map_of_mem hmem

/-- A value in the store is found by the selector of its series. -/
theorem execute_finds {s : Store} {m : Metric} {window : Query.Window}
    (hm : m ∈ s.metrics.records)
    (hname : Query.isMetricName m.name.toList = true)
    (hlabels : ∀ e ∈ m.seriesLabels.entries, Query.isLabelName e.1.toList = true)
    (hstart : Text.Integer.fitsSigned64 window.start.toNanos = true)
    (hstop : Text.Integer.fitsSigned64 window.stop.toNanos = true)
    (hfrom : window.start.toNanos ≤ m.time.toNanos) (hto : m.time.toNanos ≤ window.stop.toNanos) :
    ∃ result,
      s.execute false (Query.selectorText m.name m.seriesLabels) window = .ok result ∧
      ∃ series ∈ result.series,
        series.labels = m.seriesLabels ∧ ⟨m.time, m.value⟩ ∈ series.points := by
  let f : Query.Fetch := ⟨m.name, window.start, window.stop, m.seriesLabels⟩
  have hselected : m ∈ s.selected f := by
    rw [selected, List.mem_filter, asksFor, Bool.and_eq_true, Bool.and_eq_true, includes_iff]
    exact ⟨hm, ⟨beq_self_eq_true _, decide_eq_true ⟨hfrom, hto⟩⟩, List.Subset.refl _⟩
  have hrows := fetch_eq_ok (s := s) (f := f) hstart hstop
  refine ⟨_, execute_selectorText hname hlabels hrows, ?_⟩
  have hrow : rowOf m ∈ ((s.selected f).mergeSort fun a b =>
      decide (a.time.toNanos ≤ b.time.toNanos)).map rowOf := by
    refine List.mem_map_of_mem ?_
    rw [List.mem_mergeSort]
    exact hselected
  refine exists_series_of_row hrow fun other hother => ?_
  -- whatever was fetched besides has all the labels that were asked for
  obtain ⟨m', hm', rfl⟩ := List.mem_map.1 hother
  rw [List.mem_mergeSort, selected, List.mem_filter, asksFor, Bool.and_eq_true,
    includes_iff] at hm'
  exact hm'.2.2

end Store

/-! ## From an export to the result of a query -/

/-- A series has the labels of its values, and the service. -/
theorem Metric.isLabelName_of_mem_seriesLabels {m : Metric}
    (h : ∀ l ∈ m.labels.entries, Query.isLabelName l.1.toList = true) :
    ∀ l ∈ m.seriesLabels.entries, Query.isLabelName l.1.toList = true := by
  intro l hl
  rw [Metric.seriesLabels, Dictionary.insertNew] at hl
  split at hl
  · exact h l hl
  · rcases Dictionary.mem_entries_insert hl with hl | rfl
    · exact h l hl
    · exact (by decide : Query.isLabelName "service".toList = true)

/-- A unit of an export of metrics whose time fits a word is accepted by every store. -/
theorem accepts_of_sameTime {unit : Otlp.WriteUnit} {m : Metric} (hunit : Otlp.SameTime unit)
    (hm : .metric m ∈ unit) (hfits : Text.Integer.fitsSigned64 m.time.toNanos = true) :
    Store.Accepts unit := by
  obtain ⟨t, ht⟩ := hunit
  obtain ⟨m₀, hm₀, htime⟩ := ht _ hm
  cases hm₀
  intro r hr
  obtain ⟨m', rfl, htime'⟩ := ht r hr
  exact ⟨_, Metric.admit_eq_ok (by rw [htime', ← htime]; exact hfits)⟩

/-- **What is ingested can be queried back.** A row of a decoded export of metrics is accepted
together with its unit, and after any writes that stored it, among whatever other records, the
selector made of its name and of all labels of its series finds a series with exactly these labels
that has its point. -/
theorem ingested_row_is_found {e : Otlp.Export Otlp.Metric} {received : Instant}
    {unit : Otlp.WriteUnit} {m : Metric} (hunit : unit ∈ (Otlp.decodeMetrics e received).units)
    (hm : .metric m ∈ unit)
    (hname : Query.isMetricName m.name.toList = true)
    (hlabels : ∀ l ∈ m.labels.entries, Query.isLabelName l.1.toList = true)
    (hleap : m.time.isLeap = false)
    (hfits : Text.Integer.fitsSigned64 m.time.toNanos = true)
    (initial : Store) {writes : List (Instant × List Record)} {now : Instant} {rs : List Record}
    (hwrite : (now, rs) ∈ writes) (hrs : .metric m ∈ rs) (haccepts : Store.Accepts rs)
    {window : Query.Window}
    (hstart : Text.Integer.fitsSigned64 window.start.toNanos = true)
    (hstop : Text.Integer.fitsSigned64 window.stop.toNanos = true)
    (hstartLeap : window.start.isLeap = false) (hstopLeap : window.stop.isLeap = false)
    (hfrom : window.start ≤ m.time) (hto : m.time ≤ window.stop) :
    Store.Accepts unit ∧
    ∃ result,
      (initial.insertEach writes).execute false (Query.selectorText m.name m.seriesLabels) window =
        .ok result ∧
      ∃ series ∈ result.series,
        series.labels = m.seriesLabels ∧ ⟨m.time, m.value⟩ ∈ series.points := by
  refine ⟨accepts_of_sameTime (Otlp.sameTime_of_mem_units hunit) hm hfits, ?_⟩
  have hstored : m ∈ (initial.insertEach writes).metrics.records :=
    Store.mem_metrics_insertEach hwrite haccepts hrs (Metric.admit_eq_self hleap hfits)
  exact Store.execute_finds hstored hname (Metric.isLabelName_of_mem_seriesLabels hlabels) hstart
    hstop ((Instant.le_iff_toNanos_le hstartLeap hleap).1 hfrom)
    ((Instant.le_iff_toNanos_le hleap hstopLeap).1 hto)

/-- An export of one gauge, with an attribute whose value has a quote in it. -/
def gaugeExport : Otlp.Export Otlp.Metric where
  resources := [{
    resource := some { attributes := [("service.name", .string "api")] }
    scopes := [{ items := [{
      name := "http:requests"
      data := some (.gauge [{
        time := 1000
        attributes := [("path", .string "a\"b\\c")]
        value := some (.double 5.0) }]) }] }] }]

/-- The row of this gauge. -/
def gaugeRow : Metric where
  time := ⟨0, 1000, by omega⟩
  name := "http:requests"
  value := 5.0
  labels := Dictionary.empty.insert "path" "a\"b\\c"
  service := "api"

/-- The theorem for the row of a gauge, in a store that holds nothing else. -/
theorem gaugeRow_is_found :
    Store.Accepts [.metric gaugeRow] ∧
    ∃ result,
      (Store.empty.insertEach [(.epoch, [.metric gaugeRow])]).execute false
          (Query.selectorText gaugeRow.name gaugeRow.seriesLabels)
          ⟨.epoch, ⟨1, 0, by decide⟩, rfl⟩ = .ok result ∧
      ∃ series ∈ result.series,
        series.labels = gaugeRow.seriesLabels ∧
        ⟨gaugeRow.time, gaugeRow.value⟩ ∈ series.points := by
  have hunit : [.metric gaugeRow] ∈ (Otlp.decodeMetrics gaugeExport .epoch).units :=
    List.mem_singleton.2 rfl
  have haccepts : Store.Accepts [.metric gaugeRow] := by
    intro r hr
    obtain rfl := List.mem_singleton.1 hr
    exact ⟨_, Metric.admit_eq_ok rfl⟩
  exact ingested_row_is_found hunit List.mem_cons_self (by decide) (by decide) rfl rfl Store.empty
    List.mem_cons_self List.mem_cons_self haccepts rfl rfl rfl rfl rfl rfl

end Telemetry
