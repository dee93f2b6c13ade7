import Telemetry.Proofs.Otlp.Losses
import Telemetry.Proofs.Otlp.Parts

/-!
The account of metrics that come as JSON.

Points are left out in two stages: conversion leaves out those that are malformed and metrics whose
temporality is unknown, and decoding refuses some of what is left. A metric should count as often as
it has points, or once if it has none and is refused anyway (`MetricForm.due`). The two stages
together count that, with one exception. Of a metric without a name none of whose points converts
nothing is left but the metric itself, and decoding counts it once more, after all of its points
(`MetricForm.hollow`).
-/

set_option autoImplicit false

namespace Telemetry.Otlp.FromJson

open Json (Fault)
open Time (Instant)

/-! ## Points

A point may be lost when its JSON is converted and when it is decoded, and is counted where it is
lost. -/

namespace MetricKind

/-- Whether a plain value converts to a point of a kind. -/
def converts (v : Json) : MetricKind → Bool
  | .gauge | .sum => (numberPoint v).toOption.isSome
  | .histogram => (histogramPoint v).toOption.isSome
  | .exponential => (exponentialPoint v).toOption.isSome
  | .summary => (summaryPoint v).toOption.isSome

/-- An item that converts rejects nothing, and another one itself. -/
theorem rejected_fateOf {α : Type} (convert : Json → Except DecodeFault α) (v : Json) :
    (fateOf convert v).2.rejected = if (convert v).toOption.isSome then 0 else 1 := by
  rw [fateOf]
  cases convert v <;> rfl

/-- A point that does not convert counts once. -/
theorem rejected_lost (k : MetricKind) (v : Json) :
    (k.lost v).rejected = if k.converts v then 0 else 1 := by
  cases k <;> exact rejected_fateOf _ v

/-- Data has as many points as convert. -/
theorem size_data (k : MetricKind) (temporality : Int32) (d : PointsForm) :
    (k.data temporality d).size = d.points.countP k.converts := by
  have hcount {α : Type} (convert : Json → Except DecodeFault α) :
      (d.points.filterMap fun v => (convert v).toOption).length =
        d.points.countP fun v => (convert v).toOption.isSome := List.length_filterMap_eq_countP ..
  cases k <;> exact hcount _

end MetricKind

/-- Counting those that do not, and those that do, counts all. -/
theorem sum_indicator {α : Type} (p : α → Bool) (as : List α) :
    (as.map fun a => if p a then 0 else 1).sum + as.countP p = as.length := by
  induction as with
  | nil => rfl
  | cons a as ih =>
    rw [List.map_cons, List.sum_cons, List.countP_cons, List.length_cons, ← ih]
    split <;> omega

/-! ## Metrics

A metric without a name is refused in the second stage as a whole. Where none of its points is
left by then, it still counts as one. -/

namespace MetricForm

/-- Whether a metric is refused as a whole: it has no data or no name, or its temporality is
unknown. -/
def refused (m : MetricForm) : Bool :=
  m.selected.isNone || m.name.isEmpty || m.temporality.toOption.isNone

/-- How often a metric should count: as often as it has points, and if it has none, once where it is
refused. -/
def due (m : MetricForm) : Nat :=
  if 0 < m.size then m.size else if m.refused then 1 else 0

/-- Whether a metric without a name has points none of which converts, and nothing else is wrong
with it. -/
def hollow (m : MetricForm) : Bool :=
  m.name.isEmpty && m.temporality.toOption.isSome &&
    match m.selected with
    | none => false
    | some (k, d) => !d.points.isEmpty && d.points.countP k.converts == 0

/-- All points are either lost or left. -/
theorem rejected_pointLosses (m : MetricForm) (temporality : Int32) :
    m.pointLosses.rejected + ((m.converted temporality).data.map MetricData.size).getD 0 =
      m.size := by
  rw [pointLosses, converted, size]
  cases m.selected with
  | none => rfl
  | some p =>
    obtain ⟨k, d⟩ := p
    simp only [Option.map_some, Option.getD_some, Losses.rejected_sum, List.map_map,
      Function.comp_def, MetricKind.rejected_lost, MetricKind.size_data]
    exact sum_indicator k.converts d.points

/-- What is counted of a metric in both stages. -/
theorem accounted (m : MetricForm) :
    m.fate.2.rejected + (m.fate.1.map Metric.subRecords).getD 0 =
      m.due + if m.hollow then 1 else 0 := by
  rw [fate, due, refused, hollow]
  cases htemporality : m.temporality with
  | error e =>
    -- all points are left out with the metric, and the metric counts for none
    simp only [Except.toOption, Option.isNone_none, Bool.or_true, if_true, Option.isSome_none,
      Bool.and_false, Bool.false_and, Bool.false_eq_true, if_false, Option.map_none,
      Option.getD_none, Losses.ofFault]
    split <;> omega
  | ok temporality =>
    have hpoints := m.rejected_pointLosses temporality
    simp only [Except.toOption, Option.isNone_some, Bool.or_false, Option.isSome_some,
      Bool.and_true, Option.map_some, Option.getD_some]
    cases hselected : m.selected with
    | none =>
      -- the metric is left without data, and counts once for that
      have hsize : m.size = 0 := by rw [size, hselected]; rfl
      have hdata : (m.converted temporality).data = none := by rw [converted, hselected]; rfl
      have hone : (m.converted temporality).subRecords = 1 := by rw [Metric.subRecords, hdata]
      simp [hone, hsize] at hpoints ⊢
      exact hpoints.1
    | some p =>
      obtain ⟨k, d⟩ := p
      have hsize : m.size = d.points.length := by rw [size, hselected]; rfl
      have hdata : (m.converted temporality).data = some (k.data temporality d) := by
        rw [converted, hselected]
        rfl
      rw [hdata, Option.map_some, Option.getD_some, MetricKind.size_data, hsize] at hpoints
      by_cases hname : m.name.isEmpty
      · -- decoding counts the points that are left, and the metric where none is
        rw [Metric.subRecords_of_nameless hname, hdata, Option.map_some, Option.getD_some,
          MetricKind.size_data, hsize]
        simp only [hname, Option.isNone_some, Bool.false_or, Bool.true_and, if_true,
          Bool.and_eq_true, Bool.not_eq_true', beq_iff_eq, List.isEmpty_eq_false_iff_exists_mem,
          ← List.length_pos_iff_exists_mem]
        split <;> split <;> omega
      -- with a name, decoding counts exactly the points that are left
      · rw [Metric.subRecords_of_named (Bool.eq_false_iff.2 hname) hdata, MetricKind.size_data,
          hsize]
        simp only [hname, Option.isNone_some, Bool.false_or, Bool.false_and, Bool.false_eq_true,
          if_false]
        split <;> omega

end MetricForm

/-! ## Requests -/

section Requests

variable {α : Type} (fate : Json → Fate α)

/-- Only items are rejected. -/
theorem rejected_groups (gs : List ResourceGroupForm) :
    (gs.map (ResourceGroupForm.losses fate)).sum.rejected =
      ((rawItems gs).map fun v => (fate v).2.rejected).sum := by
  obtain ⟨n, hn⟩ := sum_losses_eq fate gs
  rw [hn, Losses.rejected_add, Losses.rejected_sum, List.map_map]
  rfl

/-- A sum over what is kept is one over all, where the others count as nothing. -/
theorem sum_map_filterMap {β : Type} (f : β → Option α) (size : α → Nat) (bs : List β) :
    ((bs.filterMap f).map size).sum = (bs.map fun b => ((f b).map size).getD 0).sum := by
  induction bs with
  | nil => rfl
  | cons b bs ih =>
    rw [List.filterMap_cons, List.map_cons, List.sum_cons, ← ih]
    cases f b with
    | none => exact (Nat.zero_add _).symm
    | some a => rfl

/-- A total over the items that are left. -/
theorem total_groups (size : α → Nat) (gs : List ResourceGroupForm) :
    Export.total size ⟨gs.map (ResourceGroupForm.converted fate)⟩ =
      ((rawItems gs).map fun v => ((fate v).1.map size).getD 0).sum := by
  rw [rawItems, Export.total, List.map_map, sum_map_flatMap]
  refine congrArg List.sum (List.map_congr_left fun g _ => ?_)
  show ((g.scopes.map (ScopeGroupForm.converted fate)).map fun s => (s.items.map size).sum).sum =
    ((g.scopes.flatMap (·.items)).map fun v => ((fate v).1.map size).getD 0).sum
  rw [List.map_map, sum_map_flatMap]
  refine congrArg List.sum (List.map_congr_left fun s _ => ?_)
  exact sum_map_filterMap _ size s.items

end Requests

/-- What is counted of metrics that have all been read. -/
theorem accounted_all {vs : List Json} {ms : List MetricForm}
    (h : List.Forall₂ (fun v m => metricForm Json.maxLevels v = .ok m) vs ms) :
    (vs.map fun v => (metricFate v).2.rejected).sum +
        (vs.map fun v => ((metricFate v).1.map Metric.subRecords).getD 0).sum =
      (ms.map MetricForm.due).sum + ms.countP MetricForm.hollow := by
  induction h with
  | nil => rfl
  | @cons v m _ _ hv _ ih =>
    have hm := m.accounted
    have hfate : metricFate v = m.fate := by rw [metricFate, hv]
    rw [List.map_cons, List.sum_cons, List.map_cons, List.sum_cons, List.map_cons, List.sum_cons,
      List.countP_cons, hfate]
    omega

/-- **What both stages count.** Of an export of metrics they count what should be counted of each
metric, and one more for each that is hollow. -/
theorem metrics_accounted {body : List UInt8} {gs : List ResourceGroupForm} {ms : List MetricForm}
    (hbody : envelope metricNaming body = .ok gs)
    (hms : (rawItems gs).mapM (metricForm Json.maxLevels) = .ok ms) :
    ∃ p, metrics body = .ok p ∧ ∀ received,
      p.losses.rejected + (decodeMetrics p.request received).rejected +
          (decodeMetrics p.request received).units.length =
        (ms.map MetricForm.due).sum + ms.countP MetricForm.hollow := by
  have hrequest := takesEach_takeMetrics.request_eq metricNaming body
  rw [hbody] at hrequest
  refine ⟨_, hrequest, fun received => ?_⟩
  have hdecoded := Request.length_units_add_rejected
    (.metrics ⟨gs.map (ResourceGroupForm.converted metricFate)⟩) received
  have hconverted := rejected_groups metricFate gs
  have htotal := total_groups metricFate Metric.subRecords gs
  have hall := accounted_all (Fallible.mapM_eq_ok_iff.1 hms)
  rw [Request.subRecords, htotal, Request.decode] at hdecoded
  simp only
  omega

/-- What should be counted of a body whose metrics can all be read, and what is counted. -/
def counts (body : List UInt8) (received : Instant) : Option (Nat × Nat) := do
  let gs ← (envelope metricNaming body).toOption
  let ms ← ((rawItems gs).mapM (metricForm Json.maxLevels)).toOption
  let p ← (metrics body).toOption
  let d := decodeMetrics p.request received
  return ((ms.map MetricForm.due).sum, p.losses.rejected + d.rejected + d.units.length)

/-- A metric without a name, and with one point whose time is no number. -/
def hollowBody : List UInt8 :=
  Text.Utf8.encode <| String.toList <|
    "\x7b\"resourceMetrics\":[\x7b\"scopeMetrics\":[\x7b\"metrics\":[\x7b\"name\":\"\"," ++
    "\"gauge\":\x7b\"dataPoints\":[\x7b\"timeUnixNano\":\"soon\"\x7d]\x7d\x7d]\x7d]\x7d]\x7d"

/-- Its metrics can be read. One point should be counted, and two are. -/
theorem reads_hollowBody : ∃ gs ms p, envelope metricNaming hollowBody = .ok gs ∧
    (rawItems gs).mapM (metricForm Json.maxLevels) = .ok ms ∧ metrics hollowBody = .ok p ∧
    (ms.map MetricForm.due).sum = 1 ∧ ∃ received,
      p.losses.rejected + (decodeMetrics p.request received).rejected +
        (decodeMetrics p.request received).units.length = 2 := by
  have hcounts : counts hollowBody ⟨0, 0, by decide⟩ = some (1, 2) := by decide +kernel
  simp only [counts, Option.bind_eq_bind, Option.bind_eq_some_iff, Fallible.toOption_eq_some,
    Option.pure_def, Option.some.injEq, Prod.mk.injEq] at hcounts
  obtain ⟨gs, hgs, ms, hms, p, hp, hdue, htotal⟩ := hcounts
  exact ⟨gs, ms, p, hgs, hms, hp, hdue, _, htotal⟩

/-- The theorem for an export with a hollow metric. -/
theorem metrics_accounted_of_hollowBody : ∃ gs ms, envelope metricNaming hollowBody = .ok gs ∧
    (rawItems gs).mapM (metricForm Json.maxLevels) = .ok ms ∧
    ∃ p, metrics hollowBody = .ok p ∧ ∀ received,
      p.losses.rejected + (decodeMetrics p.request received).rejected +
          (decodeMetrics p.request received).units.length =
        (ms.map MetricForm.due).sum + ms.countP MetricForm.hollow := by
  obtain ⟨gs, ms, -, hgs, hms, -⟩ := reads_hollowBody
  exact ⟨gs, ms, hgs, hms, metrics_accounted hgs hms⟩

/-- So the two stages do not always count what they should: here one point is counted twice. -/
theorem hollow_metric_counted_twice :
    ¬ ∀ (body : List UInt8) (gs : List ResourceGroupForm) (ms : List MetricForm),
      envelope metricNaming body = .ok gs →
      (rawItems gs).mapM (metricForm Json.maxLevels) = .ok ms →
      ∃ p, metrics body = .ok p ∧ ∀ received,
        p.losses.rejected + (decodeMetrics p.request received).rejected +
          (decodeMetrics p.request received).units.length = (ms.map MetricForm.due).sum := by
  intro h
  obtain ⟨gs, ms, p, hgs, hms, hp, hdue, received, htotal⟩ := reads_hollowBody
  obtain ⟨p', hp', hequal⟩ := h hollowBody gs ms hgs hms
  obtain rfl : p = p' := Except.ok.inj (hp.symm.trans hp')
  have hone := hequal received
  omega

end Telemetry.Otlp.FromJson
