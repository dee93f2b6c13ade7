import Telemetry.Proofs.Otlp.JsonReading

/-!
Items are read back on their own, and metrics with all of their points.

An item stays a plain value until the envelope has been read; it is settled by then, which preserves
its shapes. The points of a metric are plain values once more inside of it.
-/

set_option autoImplicit false

namespace Telemetry.Otlp.FromJson

open Json (Shape Field Fits)
open Json.Decoder

variable {levels : Nat}

/-! ## Items on their own -/

/-- An item that looks like a record is taken as one that is good. -/
theorem item_eq_ok {α β : Type} {form : Json.Decoder α} {convert : α → Except DecodeFault β}
    {shape : Shape} {good : β → Prop}
    (h : Reads Json.maxLevels form shape fun a => ∃ b, convert a = .ok b ∧ good b) {v : Json}
    (hv : Fits shape Json.maxLevels v) : ∃ b, item form convert v = .ok b ∧ good b := by
  obtain ⟨a, ha, b, hb, hgood⟩ := h v hv
  refine ⟨b, ?_, hgood⟩
  rw [item, ha]
  exact hb

/-- Items that all convert are taken without a loss. -/
theorem take_eq {α β : Type} {convert : Json → Except DecodeFault β} {good : α → β → Prop}
    {shape : α → Shape} {as : List α} {vs : List Json}
    (hconvert : ∀ a v, Fits (shape a) Json.maxLevels v → ∃ b, convert v = .ok b ∧ good a b)
    (h : List.Forall₂ (fun a v => Fits (shape a) Json.maxLevels v) as vs) (l : Losses) :
    ∃ bs, l.take convert vs = (bs, l) ∧ List.Forall₂ good as bs := by
  induction h with
  | nil => exact ⟨[], rfl, .nil⟩
  | cons hv _ ih =>
    obtain ⟨b, hb, hgood⟩ := hconvert _ _ hv
    obtain ⟨bs, hbs, hall⟩ := ih
    refine ⟨b :: bs, ?_, .cons hgood hall⟩
    rw [Losses.take, hb]
    simp only [hbs]

/-- Items that convert to what they look like are taken as they are. -/
theorem take_eq_self {α β : Type} {form : Json.Decoder α} {convert : α → Except DecodeFault β}
    {shape : β → Shape}
    (h : ∀ b, Reads Json.maxLevels form (shape b) fun a => convert a = .ok b) {bs : List β}
    {vs : List Json} (hvs : List.Forall₂ (fun b v => Fits (shape b) Json.maxLevels v) bs vs)
    (l : Losses) : l.take (item form convert) vs = (bs, l) := by
  obtain ⟨bs', htake, hsame⟩ := take_eq
    (fun b _ hv => item_eq_ok ((h b).imp fun _ ha => ⟨b, ha, rfl⟩) hv) hvs l
  rw [List.forall₂_eq_eq_eq] at hsame
  rw [htake, hsame]

/-- Whether two spans are decoded to the same record. -/
def SameSpan (s s' : Span) : Prop := ∀ service, decodeSpan service s' = decodeSpan service s

/-- Spans are taken without a loss, each up to an empty status. -/
theorem take_span {ss : List Span} {vs : List Json}
    (hvs : List.Forall₂ (fun s v => Fits (Span.shape s) Json.maxLevels v) ss vs) (l : Losses) :
    ∃ ss', l.take span vs = (ss', l) ∧ List.Forall₂ SameSpan ss ss' :=
  take_eq (fun s _ hv => item_eq_ok
    ((spanForm_reads s).imp fun _ hf => SpanForm.convert_of_means hf) hv) hvs l

/-- Log records are taken without a loss. -/
theorem take_logRecord {rs : List LogRecord} {vs : List Json}
    (hvs : List.Forall₂ (fun r v => Fits (LogRecord.shape r) Json.maxLevels v) rs vs)
    (l : Losses) : l.take logRecord vs = (rs, l) :=
  take_eq_self (fun r => (logRecordForm_reads r).imp fun _ hf =>
    LogRecordForm.convert_of_means hf) hvs l

/-! ## Data of a metric -/

/-- Whether plain values look like points. -/
def LookLike {α : Type} (shape : α → Shape) (points : List α) (vs : List Json) : Prop :=
  List.Forall₂ (fun p v => Fits (shape p) Json.maxLevels v) points vs

/-- What the members of the data of a metric mean. -/
def PointsMeans {α : Type} (shape : α → Shape) (points : List α) (temporality : Int32)
    (monotonic : Bool) : String → PointsForm → Prop
  | "dataPoints", d => LookLike shape points d.points
  | "aggregationTemporality", d => d.temporality.Denotes temporalities temporality
  | "isMonotonic", d => d.monotonic = monotonic
  | _, _ => True

/-- Data is read with those of its members that its kind has. -/
theorem pointsForm_reads {α : Type} (shape : α → Shape) (points : List α) (temporality : Int32)
    (monotonic : Bool) {others : List Field}
    (hothers : others ⊆ [temporalityField temporality, monotonicField monotonic]) :
    Reads levels pointsForm (pointsShape shape points others) fun d =>
      ∀ f ∈ listField "dataPoints" shape points :: others,
        PointsMeans shape points temporality monotonic f.1 d := by
  have hsub := List.cons_subset_cons (listField "dataPoints" shape points) hothers
  refine record_reads (PointsMeans shape points temporality monotonic) (List.map_subset _ hsub)
    fun f hf => ?_
  -- each field is one of all three, whichever of them the kind has
  have hmem := hsub hf
  clear hf
  revert f
  repeat rw [List.forall_mem_cons]
  refine ⟨⟨fun h => ?_, fun _ _ _ hv _ =>
      (list_reads (fun _ _ p => plain_reads (shape p)) _).bind hv fun b hb => ⟨hb, ?_⟩⟩,
    ⟨denotes_of_eq_zero, fun _ _ _ hv _ => (enumForm_reads _ _).bind hv fun b hb => ⟨hb, ?_⟩⟩,
    ⟨Eq.symm, fun _ _ _ hv _ => (bool_reads _).bind hv fun b hb => ⟨hb, ?_⟩⟩,
    List.forall_mem_nil _⟩
  · rw [show points = [] from h]
    exact .nil
  all_goals
    intro name hname hne hmeans
    simp only [List.mem_cons, List.not_mem_nil, or_false] at hname
    rcases hname with rfl | rfl | rfl <;> first | exact hmeans | exact absurd rfl hne

/-- What the data of a gauge or a summary that has been read stands for. -/
def PlainGood {α : Type} (shape : α → Shape) (points : List α) (d : PointsForm) : Prop :=
  LookLike shape points d.points

/-- What the data of a histogram that has been read stands for. -/
def TemporalGood {α : Type} (shape : α → Shape) (p : List α × Int32) (d : PointsForm) : Prop :=
  LookLike shape p.1 d.points ∧ d.temporality.Denotes temporalities p.2

/-- What the data of a sum that has been read stands for. -/
def SumGood (p : List NumberPoint × Int32 × Bool) (d : PointsForm) : Prop :=
  LookLike NumberPoint.shape p.1 d.points ∧ d.temporality.Denotes temporalities p.2.1 ∧
    d.monotonic = p.2.2

/-- Data without a temporality is read, its points as they stand. -/
theorem plain_data_reads {α : Type} (shape : α → Shape) (points : List α) :
    Reads levels pointsForm (pointsShape shape points []) (PlainGood shape points) := by
  -- a temporality and a direction play no part where there are no such fields
  refine (pointsForm_reads shape points 0 false (List.nil_subset _)).imp fun d hd => ?_
  exact hd _ List.mem_cons_self

/-- Data with a temporality is read with it. -/
theorem temporal_data_reads {α : Type} (shape : α → Shape) (p : List α × Int32) :
    Reads levels pointsForm (pointsShape shape p.1 [temporalityField p.2])
      (TemporalGood shape p) := by
  have hothers : [temporalityField p.2] ⊆ [temporalityField p.2, monotonicField false] :=
    fun f hf => List.mem_of_mem_head? (by rw [List.mem_singleton.1 hf]; rfl)
  refine (pointsForm_reads shape p.1 p.2 false hothers).imp fun d hd => ?_
  rw [List.forall_mem_cons, List.forall_mem_cons] at hd
  exact ⟨hd.1, hd.2.1⟩

/-- A sum is read with its temporality, and whether it only grows. -/
theorem sum_reads (p : List NumberPoint × Int32 × Bool) :
    Reads levels pointsForm (sumShape p) (SumGood p) := by
  have hothers := List.Subset.refl [temporalityField p.2.1, monotonicField p.2.2]
  refine (pointsForm_reads NumberPoint.shape p.1 p.2.1 p.2.2 hothers).imp fun d hd => ?_
  repeat rw [List.forall_mem_cons] at hd
  exact ⟨hd.1, hd.2.1, hd.2.2.1⟩

/-! ## Metrics -/

/-- What the members of a metric mean. -/
def MetricForm.Means (m : Metric) : String → MetricForm → Prop
  | "name", f => f.name = m.name
  | "description", f => f.description = m.description
  | "unit", f => f.unit = m.unit
  | "gauge", f => Option.Rel (PlainGood NumberPoint.shape) m.gauge? f.gauge
  | "sum", f => Option.Rel SumGood m.sum? f.sum
  | "histogram", f => Option.Rel (TemporalGood HistogramPoint.shape) m.histogram? f.histogram
  | "exponentialHistogram", f =>
    Option.Rel (TemporalGood ExponentialPoint.shape) m.exponential? f.exponential
  | "summary", f => Option.Rel (PlainGood SummaryPoint.shape) m.summary? f.summary
  | _, _ => True

theorem rel_of_eq_none {α β : Type} {r : α → β → Prop} {o : Option α} (h : o = none) :
    Option.Rel r o none := by
  rw [h]
  exact .none

/-- A metric is read, and each member that was read means what it does in the metric. -/
theorem metricForm_reads (m : Metric) :
    Reads levels metricForm m.shape fun f => ∀ g ∈ m.fields, MetricForm.Means m g.1 f := by
  refine record_reads (MetricForm.Means m) (List.Subset.refl _) ?_
  rw [Metric.fields]
  repeat rw [List.forall_mem_cons]
  refine ⟨⟨Eq.symm, fun _ _ _ hv _ => (text_reads _).bind hv fun b hb => ⟨hb, ?_⟩⟩,
    ⟨Eq.symm, fun _ _ _ hv _ => (text_reads _).bind hv fun b hb => ⟨hb, ?_⟩⟩,
    ⟨Eq.symm, fun _ _ _ hv _ => (text_reads _).bind hv fun b hb => ⟨hb, ?_⟩⟩,
    ⟨rel_of_eq_none, fun _ _ _ hv _ =>
      (ofOption_reads (plain_data_reads _) _).bind hv fun b hb => ⟨hb, ?_⟩⟩,
    ⟨rel_of_eq_none, fun _ _ _ hv _ =>
      (ofOption_reads sum_reads _).bind hv fun b hb => ⟨hb, ?_⟩⟩,
    ⟨rel_of_eq_none, fun _ _ _ hv _ =>
      (ofOption_reads (temporal_data_reads _) _).bind hv fun b hb => ⟨hb, ?_⟩⟩,
    ⟨rel_of_eq_none, fun _ _ _ hv _ =>
      (ofOption_reads (temporal_data_reads _) _).bind hv fun b hb => ⟨hb, ?_⟩⟩,
    ⟨rel_of_eq_none, fun _ _ _ hv _ =>
      (ofOption_reads (plain_data_reads _) _).bind hv fun b hb => ⟨hb, ?_⟩⟩,
    List.forall_mem_nil _⟩
  -- setting one member leaves what the others mean as it was
  all_goals
    intro name hname hne hmeans
    simp only [metricNames, List.mem_cons, List.not_mem_nil, or_false] at hname
    rcases hname with rfl | rfl | rfl | rfl | rfl | rfl | rfl | rfl <;>
      first | exact hmeans | exact absurd rfl hne

theorem rel_none {α β : Type} {r : α → β → Prop} {o : Option β} (h : Option.Rel r none o) :
    o = none := by
  cases h
  rfl

theorem rel_some {α β : Type} {r : α → β → Prop} {a : α} {o : Option β}
    (h : Option.Rel r (some a) o) : ∃ b, o = some b ∧ r a b := by
  cases h with
  | some hab => exact ⟨_, rfl, hab⟩

/-- The points of data are taken as they are. -/
theorem take_numberPoint {points : List NumberPoint} {vs : List Json}
    (h : LookLike NumberPoint.shape points vs) (l : Losses) :
    l.take numberPoint vs = (points, l) := take_eq_self numberPointForm_reads h l

/-- Points with histograms are taken without a loss. -/
theorem take_histogramPoint {points : List HistogramPoint} {vs : List Json}
    (h : LookLike HistogramPoint.shape points vs) (l : Losses) :
    l.take histogramPoint vs = (points, l) := take_eq_self histogramPointForm_reads h l

/-- Points with exponential histograms are taken without a loss. -/
theorem take_exponentialPoint {points : List ExponentialPoint} {vs : List Json}
    (h : LookLike ExponentialPoint.shape points vs) (l : Losses) :
    l.take exponentialPoint vs = (points, l) := take_eq_self exponentialPointForm_reads h l

/-- Points with summaries are taken without a loss. -/
theorem take_summaryPoint {points : List SummaryPoint} {vs : List Json}
    (h : LookLike SummaryPoint.shape points vs) (l : Losses) :
    l.take summaryPoint vs = (points, l) := take_eq_self summaryPointForm_reads h l

/-- A metric without a temporality is taken with its data. -/
theorem MetricForm.take_of_no_temporal {f : MetricForm} {data : Option MetricData} {l : Losses}
    (htemporal : f.temporal = none) (hdata : f.takeData 0 l = (data, l)) :
    f.take l = (some ⟨f.name, f.description, f.unit, data⟩, l) := by
  simp only [MetricForm.take, htemporal, hdata]

/-- A metric whose temporality is known is taken with its data. -/
theorem MetricForm.take_of_temporal {f : MetricForm} {d : PointsForm} {temporality : Int32}
    {data : Option MetricData} {l : Losses} (htemporal : f.temporal = some d)
    (hdenotes : d.temporality.Denotes temporalities temporality)
    (hdata : f.takeData temporality l = (data, l)) :
    f.take l = (some ⟨f.name, f.description, f.unit, data⟩, l) := by
  simp only [MetricForm.take, htemporal, hdenotes "aggregation temporality", hdata]

/-- A metric is taken as it is, without a loss. -/
theorem MetricForm.take_of_means {m : Metric} {f : MetricForm}
    (h : ∀ g ∈ m.fields, MetricForm.Means m g.1 f) (l : Losses) : f.take l = (some m, l) := by
  rw [Metric.fields] at h
  repeat rw [List.forall_mem_cons] at h
  obtain ⟨hname, hdescription, hunit, hgauge, hsum, hhistogram, hexponential, hsummary, -⟩ := h
  obtain ⟨fname, fdescription, funit, gauge, sum, histogram, exponential, summary⟩ := f
  obtain ⟨name, description, unit, data⟩ := m
  obtain rfl : fname = name := hname
  obtain rfl : fdescription = description := hdescription
  obtain rfl : funit = unit := hunit
  -- all kinds but the one of the data are absent
  match data with
  | none =>
    obtain rfl := rel_none hgauge
    obtain rfl := rel_none hsum
    obtain rfl := rel_none hhistogram
    obtain rfl := rel_none hexponential
    obtain rfl := rel_none hsummary
    rfl
  | some (.gauge points) =>
    obtain ⟨d, rfl, hpoints⟩ := rel_some hgauge
    refine MetricForm.take_of_no_temporal rfl ?_
    simp only [MetricForm.takeData, take_numberPoint hpoints]
  | some (.sum points temporality monotonic) =>
    obtain rfl := rel_none hgauge
    obtain ⟨d, rfl, hpoints, htemporality, rfl⟩ := rel_some hsum
    refine MetricForm.take_of_temporal rfl htemporality ?_
    simp only [MetricForm.takeData, take_numberPoint hpoints]
  | some (.histogram points temporality) =>
    obtain rfl := rel_none hgauge
    obtain rfl := rel_none hsum
    obtain ⟨d, rfl, hpoints, htemporality⟩ := rel_some hhistogram
    refine MetricForm.take_of_temporal rfl htemporality ?_
    simp only [MetricForm.takeData, take_histogramPoint hpoints]
  | some (.exponential points temporality) =>
    obtain rfl := rel_none hgauge
    obtain rfl := rel_none hsum
    obtain rfl := rel_none hhistogram
    obtain ⟨d, rfl, hpoints, htemporality⟩ := rel_some hexponential
    refine MetricForm.take_of_temporal rfl htemporality ?_
    simp only [MetricForm.takeData, take_exponentialPoint hpoints]
  | some (.summary points) =>
    obtain rfl := rel_none hgauge
    obtain rfl := rel_none hsum
    obtain rfl := rel_none hhistogram
    obtain rfl := rel_none hexponential
    obtain ⟨d, rfl, hpoints⟩ := rel_some hsummary
    refine MetricForm.take_of_no_temporal rfl ?_
    simp only [MetricForm.takeData, take_summaryPoint hpoints]

/-- Metrics are taken as they are, without a loss. -/
theorem takeMetrics_eq {ms : List Metric} {vs : List Json}
    (h : LookLike Metric.shape ms vs) (l : Losses) : takeMetrics l vs = (ms, l) := by
  induction h with
  | nil => rfl
  | @cons m v _ _ hv _ ih =>
    obtain ⟨f, hf, hmeans⟩ := metricForm_reads m v hv
    rw [takeMetrics, hf]
    simp only [MetricForm.take_of_means hmeans, ih]
    rfl

end Telemetry.Otlp.FromJson
