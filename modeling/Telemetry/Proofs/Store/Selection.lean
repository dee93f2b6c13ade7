import Telemetry.Proofs.Dictionary
import Telemetry.Proofs.Sorting
import Telemetry.Proofs.Time.Instant
import Telemetry.Store.Read

/-!
What is read of metrics through their label rows is what the metrics themselves say.

A store looks labels up in the table of label rows. Since identifiers tell rows, a label row with
the identifier of a metric is one of this metric (`contains_label_iff`), and so a request selects
the metrics whose series have the labels that are asked for, and the labels of a metric are those
of its series. From here on the label rows are not looked at any more.
-/

set_option autoImplicit false

namespace Telemetry.Store

open Time (Instant)

/-! ## Label rows

The labels of a metric are asked of a table of their own. What it says of a row is what the row
itself says, which is part of the type of a store. -/

/-- A label is found under the identifier of a stored metric exactly if it is one of its series. -/
theorem contains_label_iff {s : Store} {r : Stored Metric} (hr : r ∈ s.metrics.rows)
    {e : String × String} :
    s.labels.contains ⟨r.id, e.1, e.2⟩ = true ↔ e ∈ r.record.seriesLabels.entries := by
  rw [List.contains_iff_mem, s.labelled]
  constructor
  · rintro ⟨r', hr', hl⟩
    obtain ⟨hid, he⟩ := LabelRow.mem_ofStored.1 hl
    rw [s.metrics.eq_of_id_eq hr hr' hid]
    exact he
  · intro he
    exact ⟨r, hr, LabelRow.mem_ofStored.2 ⟨rfl, he⟩⟩

/-- The labels of a metric are those of the series of its rows. -/
theorem mem_metricLabels {s : Store} {metric : String} {e : String × String} :
    e ∈ s.metricLabels metric ↔
      ∃ m ∈ s.metrics.records, m.name = metric ∧ e ∈ m.seriesLabels.entries := by
  simp only [metricLabels, List.mem_map, List.mem_filter, List.any_eq_true, Bool.and_eq_true,
    beq_iff_eq, s.labelled, Table.records]
  constructor
  · rintro ⟨l, ⟨⟨r, hr, hl⟩, r', hr', hid', hname⟩, rfl⟩
    obtain ⟨hid, he⟩ := LabelRow.mem_ofStored.1 hl
    obtain rfl := s.metrics.eq_of_id_eq hr hr' (hid.symm.trans hid'.symm)
    exact ⟨_, ⟨r, hr, rfl⟩, hname, he⟩
  · rintro ⟨m, ⟨r, hr, rfl⟩, hname, he⟩
    exact ⟨⟨r.id, e.1, e.2⟩, ⟨⟨r, hr, LabelRow.mem_ofStored.2 ⟨rfl, he⟩⟩, r, hr, rfl, hname⟩, rfl⟩

/-! ## Requests -/

/-- A label set includes another one if it has all of its labels. -/
theorem includes_iff {d constraints : Labels} :
    d.includes constraints = true ↔ constraints.entries ⊆ d.entries := by
  rw [Dictionary.includes, List.all_eq_true]
  constructor
  · intro h e he
    have hget := h e he
    rw [beq_iff_eq, Dictionary.get?_eq_some_iff] at hget
    exact hget
  · intro h e he
    rw [beq_iff_eq, Dictionary.get?_eq_some_iff]
    exact h he

/-- Whether a request asks for a metric. -/
def asksFor (f : Query.Fetch) (m : Metric) : Bool :=
  m.name == f.metric && decide (f.start.toNanos ≤ m.time.toNanos ∧
    m.time.toNanos ≤ f.stop.toNanos) && m.seriesLabels.includes f.labels

/-- The values that a request asks for. -/
def selected (s : Store) (f : Query.Fetch) : List Metric := s.metrics.records.filter (asksFor f)

/-- The table of labels answers for a row what the row itself does. -/
theorem answers_eq_asksFor {s : Store} {f : Query.Fetch} {r : Stored Metric}
    (hr : r ∈ s.metrics.rows) :
    s.answers f f.start.toNanos f.stop.toNanos r = asksFor f r.record := by
  rw [answers, asksFor, Bool.eq_iff_iff, Bool.and_eq_true, Bool.and_eq_true (_ && _), includes_iff,
    List.all_eq_true]
  refine and_congr_right fun _ => ?_
  exact forall₂_congr fun e _ => contains_label_iff hr

/-- What is selected through label rows is what is asked for, with the rows in their order. -/
theorem map_filter_answers (s : Store) (f : Query.Fetch) :
    (s.metrics.rows.filter (s.answers f f.start.toNanos f.stop.toNanos)).map (·.record) =
      s.selected f := by
  rw [List.filter_congr fun r hr => answers_eq_asksFor hr, selected, Table.records,
    List.filter_map]
  rfl

/-- Between bounds that fit a word, what is fetched are the selected values by ascending time. -/
theorem fetch_eq_ok {s : Store} {f : Query.Fetch}
    (hstart : Text.Integer.fitsSigned64 f.start.toNanos = true)
    (hstop : Text.Integer.fitsSigned64 f.stop.toNanos = true) :
    s.fetch false f = .ok (((s.selected f).mergeSort fun a b =>
      decide (a.time.toNanos ≤ b.time.toNanos)).map rowOf) := by
  let rows := s.metrics.rows.filter (s.answers f f.start.toNanos f.stop.toNanos)
  let nanos (r : Stored Metric) : Int := r.record.time.toNanos
  have hrank : rows.Pairwise fun a b => a.id < b.id := s.metrics.ascending.filter _
  -- identifiers ascend, so they order the rows of one time as insertion did
  have hsort : rows.mergeSort fetchedBefore = rows.mergeSort (Sorting.keyLe nanos) :=
    Sorting.mergeSort_tiebreak nanos hrank
  have hfetch : s.fetch false f =
      .ok ((rows.mergeSort fetchedBefore).map fun r => rowOf r.record) := by
    simp only [fetch, Instant.toWord_eq_ok hstart, Instant.toWord_eq_ok hstop, Bool.false_eq_true,
      if_false]
    rfl
  rw [hfetch, hsort, ← map_filter_answers, ← List.map_mergeSort (r := Sorting.keyLe nanos)
    (f := (·.record)) fun _ _ _ _ => rfl, List.map_map]
  rfl

end Telemetry.Store
