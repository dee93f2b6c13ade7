import Telemetry.Otlp.Decode
import Telemetry.Proofs.Fallible

/-!
What the units of a decoded export are made of.

The units are the results that are no errors, in their order. A unit of an export of metrics holds
the rows of one point, and all rows of a point are made of one base: they have its time and its
service.
-/

set_option autoImplicit false

namespace Telemetry.Otlp

open Time (Instant)

/-! ## Units and results -/

/-- The units of a decoded request are what the steps returned, in whatever order. -/
theorem mem_units_ofResults {results : List (Except Error WriteUnit)} {unit : WriteUnit} :
    unit ∈ (Decoded.ofResults results).units ↔ .ok unit ∈ results := by
  induction results with
  | nil => simp [Decoded.ofResults]
  | cons result rest ih =>
    cases result with
    | ok u =>
      simp only [Decoded.ofResults, List.mem_cons, ih, Except.ok.injEq]
    | error e => simp [Decoded.ofResults, ih]

/-! ## Rows of one point -/

/-- Whether a value is a row made of a base. -/
def RowBase.IsRow (b : RowBase) (m : Telemetry.Metric) : Prop :=
  ∃ suffix value label, m = b.row suffix value label

theorem RowBase.IsRow.time_eq {b : RowBase} {m : Telemetry.Metric} (h : b.IsRow m) :
    m.time = b.time := by
  obtain ⟨suffix, value, label, rfl⟩ := h
  rfl

theorem RowBase.IsRow.service_eq {b : RowBase} {m : Telemetry.Metric} (h : b.IsRow m) :
    m.service = b.service := by
  obtain ⟨suffix, value, label, rfl⟩ := h
  rfl

/-- Whether all that a function makes of a base are rows of it. -/
def MakesRows (rows : RowBase → List Telemetry.Metric) : Prop := ∀ b, ∀ m ∈ rows b, b.IsRow m

/-- The row with the total of a distribution is one only if there is a total. -/
theorem makesRows_sumRow (total : Option Float) : MakesRows fun b => b.sumRow total := by
  intro b m hm
  cases total with
  | none => cases hm
  | some x =>
    simp only [RowBase.sumRow] at hm
    split at hm
    · exact ⟨_, _, _, List.mem_singleton.1 hm⟩
    · cases hm

/-- A number makes one row, under the name of its metric. -/
theorem makesRows_number (value : Float) : MakesRows fun b => numberRows b value :=
  fun _ _ hm => ⟨_, _, _, List.mem_singleton.1 hm⟩

/-- The rows of a point that is counted: its count, its sum, and a row for each of some parts. -/
theorem makesRows_counted {α : Type} (count : UInt64) (total : Option Float) (parts : List α)
    (suffix : String) (value : α → Float) (label : α → Option (String × String)) :
    MakesRows fun b => b.row "_count" (ofCount count) none :: b.sumRow total ++
      parts.map fun p => b.row suffix (value p) (label p) := by
  intro b m hm
  simp only [List.cons_append, List.mem_cons, List.mem_append, List.mem_map] at hm
  rcases hm with rfl | hm | ⟨p, -, rfl⟩
  · exact ⟨_, _, _, rfl⟩
  · exact makesRows_sumRow total b m hm
  · exact ⟨_, _, _, rfl⟩

/-- A histogram makes a row for its count, one for its total and one for each bucket. -/
theorem makesRows_histogram (p : HistogramPoint) : MakesRows fun b => histogramRows b p :=
  makesRows_counted p.count p.sum _ _ _ _

/-- Of an exponential histogram only the count and the total become rows. -/
theorem makesRows_exponential (p : ExponentialPoint) : MakesRows fun b => exponentialRows b p := by
  intro b m hm
  rcases List.mem_cons.1 hm with rfl | hm
  · exact ⟨_, _, _, rfl⟩
  · exact makesRows_sumRow p.sum b m hm

/-- A summary always has a total, and makes a row for each quantile. -/
theorem makesRows_summary (p : SummaryPoint) : MakesRows fun b => summaryRows b p :=
  makesRows_counted p.count (some p.sum) _ _ _ _

/-- Whether the records of a unit are rows of one point of a service, whose time is that of the
point or that of its receipt. -/
def RowsOfPoint (service : String) (received : Instant) (unit : WriteUnit) : Prop :=
  ∃ b : RowBase, b.service = service ∧ (∃ time, pointTime time received = .ok b.time) ∧
    ∀ r ∈ unit, ∃ m, r = .metric m ∧ b.IsRow m

variable {service : String} {received : Instant} {unit : WriteUnit}

/-- A point that is decoded has a time that the store can take, and its rows have that time. -/
theorem rowsOfPoint_of_decodePoint {metric : String} {time : UInt64} {attributes : List KeyValue}
    {rows : RowBase → List Telemetry.Metric} (hrows : MakesRows rows)
    (h : decodePoint metric service received time attributes rows = .ok unit) :
    RowsOfPoint service received unit := by
  obtain ⟨t, ht, h⟩ := Fallible.bind_eq_ok h
  cases h
  refine ⟨⟨metric, service, t, labelsOf attributes⟩, rfl, ⟨time, ht⟩, fun r hr => ?_⟩
  obtain ⟨m, hm, rfl⟩ := List.mem_map.1 hr
  exact ⟨m, rfl, hrows _ m hm⟩

/-- A number is decoded as any point is, once it has a value. -/
theorem rowsOfPoint_of_decodeNumber {metric : String} {p : NumberPoint}
    (h : decodeNumber metric service received p = .ok unit) :
    RowsOfPoint service received unit := by
  -- a number without a value fails
  rw [decodeNumber] at h
  split at h
  · cases h
  · exact rowsOfPoint_of_decodePoint (makesRows_number _) h

/-- Whatever the kind of a metric, a unit made of it holds the rows of one of its points. -/
theorem rowsOfPoint_of_decodeMetric {metric : Metric}
    (h : .ok unit ∈ decodeMetric service received metric) : RowsOfPoint service received unit := by
  -- a metric without a name loses all of its points, one without data fails as a whole
  rw [decodeMetric] at h
  split at h
  · cases (List.mem_replicate.1 h).2
  · split at h
    · cases List.mem_singleton.1 h
    · obtain ⟨p, -, hp⟩ := List.mem_map.1 h
      exact rowsOfPoint_of_decodeNumber hp
    · obtain ⟨p, -, hp⟩ := List.mem_map.1 h
      exact rowsOfPoint_of_decodeNumber hp
    · obtain ⟨p, -, hp⟩ := List.mem_map.1 h
      exact rowsOfPoint_of_decodePoint (makesRows_histogram p) hp
    · obtain ⟨p, -, hp⟩ := List.mem_map.1 h
      exact rowsOfPoint_of_decodePoint (makesRows_exponential p) hp
    · obtain ⟨p, -, hp⟩ := List.mem_map.1 h
      exact rowsOfPoint_of_decodePoint (makesRows_summary p) hp

/-! ## One time -/

/-- Whether all records of a unit are values of metrics at one instant. -/
def SameTime (unit : WriteUnit) : Prop :=
  ∃ t : Instant, ∀ r ∈ unit, ∃ m : Telemetry.Metric, r = .metric m ∧ m.time = t

/-- The units of an export of metrics are the rows of its points. -/
theorem sameTime_of_mem_units {e : Export Metric} (h : unit ∈ (decodeMetrics e received).units) :
    SameTime unit := by
  rw [decodeMetrics, mem_units_ofResults, List.mem_flatMap] at h
  obtain ⟨⟨service, metric⟩, -, hunit⟩ := h
  obtain ⟨b, -, -, hrows⟩ := rowsOfPoint_of_decodeMetric hunit
  refine ⟨b.time, fun r hr => ?_⟩
  obtain ⟨m, rfl, hm⟩ := hrows r hr
  exact ⟨m, rfl, hm.time_eq⟩

end Telemetry.Otlp
