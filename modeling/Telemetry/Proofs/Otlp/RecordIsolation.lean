import Telemetry.Proofs.Otlp.Envelope
import Telemetry.Proofs.Otlp.Losses

/-!
One span, log record or point of an export that comes as JSON has no effect on the others.

An export with a hole at the place of a record is a request to which only the record itself is
missing (`RequestHole`). Whatever stands at the place, what is made of it is put into the hole, if
it converts, and otherwise it is counted; the losses before and behind it stay the same. The place
may also be one that does not count, such as a point of data which is not looked at; then nothing
depends on it.

What stands at the place has to be a value, though, that can be read there at all: nested no deeper
than the levels that are left allow, and without parts that have no value. If it is not, the
envelope cannot be read, and the whole export is refused.
-/

set_option autoImplicit false

namespace Telemetry.Otlp.FromJson

open Json (Fault Place Step Through within settled)
open Json.Decoder (Leads plain)

/-! ## Exports with a hole

What surrounds a record is fixed, and the record itself is put into the hole. There are holes for
items, and inside of metrics there are holes for points. -/

/-- An export without some of the items of one of its groups. -/
structure ItemHole (α : Type) where
  front : List (ResourceGroup α)
  group : ResourceGroup α
  before : List (ScopeGroup α)
  scope : ScopeGroup α
  items : List α
  items' : List α
  after : List (ScopeGroup α)
  back : List (ResourceGroup α)

/-- The export with these items. -/
def ItemHole.fill {α : Type} (h : ItemHole α) (own : List α) : Export α :=
  ⟨h.front ++ { h.group with
    scopes := h.before ++ { h.scope with items := h.items ++ own ++ h.items' } :: h.after } ::
      h.back⟩

/-- The data of a metric without one of its points. -/
inductive PointHole where
  | gauge (before after : List NumberPoint)
  | sum (before after : List NumberPoint) (temporality : Int32) (monotonic : Bool)
  | histogram (before after : List HistogramPoint) (temporality : Int32)
  | exponential (before after : List ExponentialPoint) (temporality : Int32)
  | summary (before after : List SummaryPoint)

namespace PointHole

/-- The data with what a plain value converts to, if it converts. -/
def fill (v : Json) : PointHole → MetricData
  | .gauge before after => .gauge (before ++ (numberPoint v).toOption.toList ++ after)
  | .sum before after temporality monotonic =>
    .sum (before ++ (numberPoint v).toOption.toList ++ after) temporality monotonic
  | .histogram before after temporality =>
    .histogram (before ++ (histogramPoint v).toOption.toList ++ after) temporality
  | .exponential before after temporality =>
    .exponential (before ++ (exponentialPoint v).toOption.toList ++ after) temporality
  | .summary before after => .summary (before ++ (summaryPoint v).toOption.toList ++ after)

/-- Why a plain value does not convert to such a point. -/
def faults (v : Json) : PointHole → List DecodeFault
  | .gauge _ _ | .sum _ _ _ _ => faultsOf numberPoint v
  | .histogram _ _ _ => faultsOf histogramPoint v
  | .exponential _ _ _ => faultsOf exponentialPoint v
  | .summary _ _ => faultsOf summaryPoint v

end PointHole

/-- A request without one of its records, or one in which a place does not count. -/
inductive RequestHole where
  | span (h : ItemHole Span)
  | logRecord (h : ItemHole LogRecord)
  | point (h : ItemHole Metric) (metric : Metric) (p : PointHole)
  | unused (request : Request)

namespace RequestHole

/-- The request with what a plain value converts to, if it converts. -/
def fill (v : Json) : RequestHole → Request
  | .span h => .traces (h.fill (FromJson.span v).toOption.toList)
  | .logRecord h => .logs (h.fill (FromJson.logRecord v).toOption.toList)
  | .point h metric p => .metrics (h.fill [{ metric with data := some (p.fill v) }])
  | .unused request => request

/-- Why a plain value does not convert to such a record. -/
def faults (v : Json) : RequestHole → List DecodeFault
  | .span _ => faultsOf FromJson.span v
  | .logRecord _ => faultsOf FromJson.logRecord v
  | .point _ _ p => p.faults v
  | .unused _ => []

/-- At most one fault comes from one place. -/
theorem length_faults_le (h : RequestHole) (v : Json) : (h.faults v).length ≤ 1 := by
  cases h with
  | span h => exact length_faultsOf_le _ v
  | logRecord h => exact length_faultsOf_le _ v
  | point h metric p => cases p <;> exact length_faultsOf_le _ v
  | unused request => exact Nat.zero_le 1

end RequestHole

/-! ## Points -/

/-- The data of a kind, seen from one of its points. -/
theorem exists_pointHole (k : MetricKind) (temporality : Int32) (d : PointsForm)
    (points points' : List Json) :
    ∃ p : PointHole, ∀ v,
      k.data temporality { d with points := points ++ v :: points' } = p.fill v ∧
        k.faults v = p.faults v := by
  -- the points that are kept are those before, the one asked about if it is kept, and those
  -- behind
  have hkept {α : Type} (convert : Json → Except DecodeFault α) (v : Json) :
      (points ++ v :: points').filterMap (fun v => (convert v).toOption) =
        points.filterMap (fun v => (convert v).toOption) ++ (convert v).toOption.toList ++
          points'.filterMap fun v => (convert v).toOption := by
    rw [List.filterMap_append, List.filterMap_cons]
    cases convert v <;> simp [Except.toOption]
  -- each kind of data is put together from its points in its own way
  cases k with
  | gauge =>
    refine ⟨.gauge (points.filterMap fun v => (numberPoint v).toOption)
      (points'.filterMap fun v => (numberPoint v).toOption), fun v => ⟨?_, rfl⟩⟩
    rw [MetricKind.data, PointHole.fill, hkept]
  | sum =>
    refine ⟨.sum (points.filterMap fun v => (numberPoint v).toOption)
      (points'.filterMap fun v => (numberPoint v).toOption) temporality d.monotonic,
      fun v => ⟨?_, rfl⟩⟩
    rw [MetricKind.data, PointHole.fill, hkept]
  | histogram =>
    refine ⟨.histogram (points.filterMap fun v => (histogramPoint v).toOption)
      (points'.filterMap fun v => (histogramPoint v).toOption) temporality, fun v => ⟨?_, rfl⟩⟩
    rw [MetricKind.data, PointHole.fill, hkept]
  | exponential =>
    refine ⟨.exponential (points.filterMap fun v => (exponentialPoint v).toOption)
      (points'.filterMap fun v => (exponentialPoint v).toOption) temporality, fun v => ⟨?_, rfl⟩⟩
    rw [MetricKind.data, PointHole.fill, hkept]
  | summary =>
    refine ⟨.summary (points.filterMap fun v => (summaryPoint v).toOption)
      (points'.filterMap fun v => (summaryPoint v).toOption), fun v => ⟨?_, rfl⟩⟩
    rw [MetricKind.data, PointHole.fill, hkept]

/-- Data that is put into a metric is what counts there, or data of another kind counts. -/
theorem selected_put (m : MetricForm) (k : MetricKind) :
    (∃ fixed, ∀ d, (m.put (some d) k).selected = some fixed) ∨
      ∀ d, (m.put (some d) k).selected = some (k, d) := by
  obtain ⟨name, description, unit, gauge, sum, histogram, exponential, summary⟩ := m
  -- the kind itself decides, or one that comes before it
  cases k <;> cases gauge <;> cases sum <;> cases histogram <;> cases exponential <;>
    first
    | exact .inr fun d => rfl
    | exact .inl ⟨_, fun d => rfl⟩

/-- What becomes of a metric depends on its texts and its selected data. -/
theorem fate_congr {m m' : MetricForm} (hselected : m.selected = m'.selected)
    (hname : m.name = m'.name) (hdescription : m.description = m'.description)
    (hunit : m.unit = m'.unit) : m.fate = m'.fate := by
  simp only [MetricForm.fate, MetricForm.temporality, MetricForm.temporal_eq, MetricForm.size,
    MetricForm.converted, MetricForm.pointLosses, hselected, hname, hdescription, hunit]

/-- Data does not touch the texts of a metric. -/
theorem texts_put (m : MetricForm) (d d' : Option PointsForm) (k : MetricKind) :
    (m.put d k).name = (m.put d' k).name ∧ (m.put d k).description = (m.put d' k).description ∧
      (m.put d k).unit = (m.put d' k).unit := by
  cases k <;> exact ⟨rfl, rfl, rfl⟩

/-- What becomes of a metric, seen from one of its points: nothing of it depends on the point, or
the point alone does. -/
theorem fate_put_point (m : MetricForm) (k : MetricKind) (d : PointsForm)
    (points points' : List Json) :
    (∃ fixed, ∀ v, (m.put (some { d with points := points ++ v :: points' }) k).fate = fixed) ∨
      ∃ (metric : Metric) (p : PointHole) (lb la : Losses), ∀ v,
        (m.put (some { d with points := points ++ v :: points' }) k).fate =
          (some { metric with data := some (p.fill v) }, lb + .ofFaults (p.faults v) + la) := by
  obtain ⟨fixed, hfixed⟩ | hown := selected_put m k
  · refine .inl ⟨(m.put (some d) k).fate, fun v => ?_⟩
    obtain ⟨hname, hdescription, hunit⟩ := texts_put m
      (some { d with points := points ++ v :: points' }) (some d) k
    exact fate_congr ((hfixed _).trans (hfixed _).symm) hname hdescription hunit
  · have htemporality (v : Json) :
        (m.put (some { d with points := points ++ v :: points' }) k).temporality =
          if k.IsTemporal = true then
            d.temporality.resolve "aggregation temporality" temporalities
          else .ok 0 := by
      rw [MetricForm.temporality, MetricForm.temporal_eq, hown]
      by_cases hk : k.IsTemporal = true <;> simp [hk]
    cases hresolve : (if k.IsTemporal = true then
        d.temporality.resolve "aggregation temporality" temporalities else .ok 0) with
    | error e =>
      -- the metric is left out with all of its points, whatever they are
      refine .inl ⟨(none, .ofFault (max (points.length + (points'.length + 1)) 1) e), fun v => ?_⟩
      rw [MetricForm.fate, htemporality, hresolve, MetricForm.size, hown]
      simp only [Option.map_some, Option.getD_some, List.length_append, List.length_cons]
    | ok temporality =>
      obtain ⟨p, hp⟩ := exists_pointHole k temporality d points points'
      refine .inr ⟨(m.put (some d) k).converted temporality, p,
        (points.map fun v => k.lost v).sum, (points'.map fun v => k.lost v).sum, fun v => ?_⟩
      obtain ⟨hname, hdescription, hunit⟩ := texts_put m
        (some { d with points := points ++ v :: points' }) (some d) k
      obtain ⟨hdata, hfaults⟩ := hp v
      rw [MetricForm.fate, htemporality, hresolve]
      refine Prod.ext ?_ ?_
      · simp only [MetricForm.converted, hown, Option.map_some, hdata, hname, hdescription, hunit]
      · simp only [MetricForm.pointLosses, hown, Option.map_some, Option.getD_some, List.map_append,
          List.map_cons, List.sum_append, List.sum_cons, MetricKind.lost_eq_ofFaults, hfaults,
          add_assoc]

/-- What becomes of a plain value as a metric, seen from the place of one of its points. -/
theorem metricFate_fill {k : MetricKind} {place : Place} (hplace : place.Follows (pointPath k)) :
    (∃ fixed, ∀ v, within 124 v = true → metricFate (settled (place.fill v)) = fixed) ∨
      ∃ (metric : Metric) (p : PointHole) (lb la : Losses), ∀ v, within 124 v = true →
        metricFate (settled (place.fill v)) =
          (some { metric with data := some (p.fill (settled v)) },
            lb + .ofFaults (p.faults (settled v)) + la) := by
  obtain ⟨fixed, hfixed⟩ | ⟨place', hplace', hsettled⟩ := Json.settled_fill hplace
  · exact .inl ⟨metricFate fixed, fun v _ => by rw [hfixed]⟩
  · have hread (v : Json) (hv : within 124 v = true) : plain 124 (settled v) = .ok (settled v) := by
      rw [plain, Json.settle_eq_ok _ (Json.within_settled v hv), Json.settled_settled]
    -- the metric around the point is unreadable whatever the point is, or it is read as a form
    -- with a place for it
    obtain ⟨e, he⟩ | ⟨f, ⟨m, d, points, points', rfl⟩, hf⟩ :=
      (leads_point k 124 place' hplace').total
    · refine .inl ⟨(none, .ofFault 1 (.malformedMetric e)), fun v hv => ?_⟩
      have hform : metricForm Json.maxLevels (Place.fill place' (settled v)) = .error e :=
        he _ _ (hread v hv)
      rw [hsettled, metricFate, hform]
    · have hform (v : Json) (hv : within 124 v = true) :
          metricForm Json.maxLevels (Place.fill place' (settled v)) =
            .ok (m.put (some { d with points := points ++ settled v :: points' }) k) :=
        hf _ _ (hread v hv)
      obtain ⟨fixed, hfixed⟩ | ⟨metric, p, lb, la, hfate⟩ := fate_put_point m k d points points'
      · exact .inl ⟨fixed, fun v hv => by rw [hsettled, metricFate, hform v hv]; exact hfixed _⟩
      · refine .inr ⟨metric, p, lb, la, fun v hv => ?_⟩
        rw [hsettled, metricFate, hform v hv]
        exact hfate _

/-! ## Items

Around an item, an export is a hole for it, and losses before and behind it that do not depend on
it. -/

/-- Groups that are converted, seen from one of their items. -/
theorem exists_itemHole {α : Type} (fate : Json → Fate α) (front : List ResourceGroupForm)
    (g : ResourceGroupForm) (before : List ScopeGroupForm) (s : ScopeGroupForm)
    (items items' : List Json) (after : List ScopeGroupForm) (back : List ResourceGroupForm) :
    ∃ (h : ItemHole α) (lb la : Losses), ∀ v gs,
      gs = front ++ { g with
        scopes := before ++ { s with items := items ++ v :: items' } :: after } :: back →
      ⟨gs.map (ResourceGroupForm.converted fate)⟩ = h.fill (fate v).1.toList ∧
        (gs.map (ResourceGroupForm.losses fate)).sum = lb + (fate v).2 + la := by
  refine ⟨⟨front.map (ResourceGroupForm.converted fate), g.converted fate,
    before.map (ScopeGroupForm.converted fate), s.converted fate,
    items.filterMap fun v => (fate v).1, items'.filterMap fun v => (fate v).1,
    after.map (ScopeGroupForm.converted fate), back.map (ResourceGroupForm.converted fate)⟩,
    (front.map (ResourceGroupForm.losses fate)).sum +
      ((before.map (ScopeGroupForm.losses fate)).sum + (items.map fun v => (fate v).2).sum),
    (items'.map fun v => (fate v).2).sum +
      (.ofAttributes ((s.scope.map fun s => (keepConvertible s.attributes).2).getD 0) +
        ((after.map (ScopeGroupForm.losses fate)).sum +
          (.ofAttributes ((g.resource.map fun r => (keepConvertible r.attributes).2).getD 0) +
            (back.map (ResourceGroupForm.losses fate)).sum))), ?_⟩
  rintro v _ rfl
  -- as for the points, what is kept of the items splits around the one asked about
  have hkept : (items ++ v :: items').filterMap (fun v => (fate v).1) =
      items.filterMap (fun v => (fate v).1) ++ (fate v).1.toList ++
        items'.filterMap fun v => (fate v).1 := by
    rw [List.filterMap_append, List.filterMap_cons]
    cases (fate v).1 <;> simp
  constructor
  · simp only [ItemHole.fill, List.map_append, List.map_cons, ResourceGroupForm.converted,
      ScopeGroupForm.converted, hkept]
  · simp only [List.map_append, List.map_cons, List.sum_append, List.sum_cons,
      ResourceGroupForm.losses, ScopeGroupForm.losses, add_assoc]

/-! ## Surroundings

Whether the record is taken or lost, the units before and behind it are the same, and so are the
counts of all other losses. -/

/-- A request without one of its records, with what is lost before and behind that one. -/
structure Surroundings where
  hole : RequestHole
  before : Losses
  after : Losses

/-- What becomes of an export with a plain value at the place of the record. -/
def Surroundings.outcome (s : Surroundings) (v : Json) : Request × Losses :=
  (s.hole.fill v, s.before + .ofFaults (s.hole.faults v) + s.after)

/-- What is rejected depends on the value by one at most. -/
theorem Surroundings.rejected_le (s : Surroundings) (v w : Json) :
    (s.outcome w).2.rejected ≤ (s.outcome v).2.rejected + 1 := by
  have hw := s.hole.length_faults_le w
  show s.before.rejected + (s.hole.faults w).length + s.after.rejected ≤
    s.before.rejected + (s.hole.faults v).length + s.after.rejected + 1
  omega

/-- Whether whatever is within some levels at a place in an item has the same surroundings, if what
is made of the item is put among other groups in a given way. -/
def Surrounds (s : Surroundings) (kind : RecordKind) (inner : Place) (levels : Nat)
    (f : Json → List ResourceGroupForm) : Prop :=
  ∀ v, within levels v = true →
    Request.ofGroups kind (f (settled (inner.fill v))) = s.outcome (settled v)

/-- Items that convert as a whole or not at all have surroundings. -/
theorem exists_surroundings_item {α : Type} {kind : RecordKind}
    (convert : Json → Except DecodeFault α) (hole : ItemHole α → RequestHole)
    (toRequest : Export α → Request)
    (hgroups : ∀ gs, Request.ofGroups kind gs =
      (toRequest ⟨gs.map (ResourceGroupForm.converted (fateOf convert))⟩,
        (gs.map (ResourceGroupForm.losses (fateOf convert))).sum))
    (hfill : ∀ h v, (hole h).fill v = toRequest (h.fill (convert v).toOption.toList))
    (hfaults : ∀ h v, (hole h).faults v = faultsOf convert v)
    {f : Json → List ResourceGroupForm} (hf : PutsItem f) : ∃ s, Surrounds s kind [] 121 f := by
  obtain ⟨front, g, before, s, items, items', after, back, rfl⟩ := hf
  obtain ⟨h, lb, la, hhole⟩ :=
    exists_itemHole (fateOf convert) front g before s items items' after back
  refine ⟨⟨hole h, lb, la⟩, fun v _ => ?_⟩
  obtain ⟨hconverted, hlosses⟩ := hhole (settled v) _ rfl
  rw [fst_fateOf] at hconverted
  rw [snd_fateOf] at hlosses
  rw [Place.fill, List.foldr_nil, hgroups, hconverted, hlosses, Surroundings.outcome, hfill,
    hfaults]

/-- Around a point of a metric there are surroundings that do not depend on it. -/
theorem exists_surroundings_point {f : Json → List ResourceGroupForm} (hf : PutsItem f)
    {k : MetricKind} {inner : Place} (hinner : inner.Follows (pointPath k)) :
    ∃ s, Surrounds s .metrics inner 118 f := by
  obtain ⟨front, g, before, s, items, items', after, back, rfl⟩ := hf
  obtain ⟨h, lb, la, hhole⟩ :=
    exists_itemHole metricFate front g before s items items' after back
  obtain ⟨fixed, hfixed⟩ | ⟨metric, p, lb', la', hfate⟩ := metricFate_fill hinner
  · refine ⟨⟨.unused (.metrics (h.fill fixed.1.toList)), lb, fixed.2 + la⟩, fun v hv => ?_⟩
    obtain ⟨hconverted, hlosses⟩ := hhole (settled (inner.fill v)) _ rfl
    rw [hfixed v (Json.within_mono (by decide) v hv)] at hconverted hlosses
    refine Prod.ext (congrArg Request.metrics hconverted) (hlosses.trans ?_)
    show lb + fixed.2 + la = lb + .ofFaults [] + (fixed.2 + la)
    rw [Losses.ofFaults_nil, add_zero, add_assoc]
  · refine ⟨⟨.point h metric p, lb + lb', la' + la⟩, fun v hv => ?_⟩
    obtain ⟨hconverted, hlosses⟩ := hhole (settled (inner.fill v)) _ rfl
    rw [hfate v (Json.within_mono (by decide) v hv)] at hconverted hlosses
    refine Prod.ext (congrArg Request.metrics hconverted) (hlosses.trans ?_)
    simp only [Surroundings.outcome, RequestHole.faults, add_assoc]

/-- Whether the outcome of any export with a value at a place is known from surroundings. -/
def Surroundings.Decide (s : Surroundings) (kind : RecordKind) (levels : Nat) (place : Place) :
    Prop :=
  ∀ (body : List UInt8) (v : Json), Json.read body = .ok (place.fill v) →
    (within levels v = true → Request.ofJson kind body = .ok (s.outcome (settled v))) ∧
    (within levels v = false →
      ∃ fault, Request.ofJson kind body = .error (.decode (.malformedBody fault)))

/-- One export that is read is enough to know all others with the same values around the place. -/
theorem exists_decide {kind : RecordKind} {outer inner : Place}
    (houter : outer.Follows (itemPath kind.naming)) {levels : Nat}
    (hlevels : levels + inner.length = 121)
    (hsurrounds : ∀ f, PutsItem f → ∃ s, Surrounds s kind inner levels f)
    {body : List UInt8} {v : Json} (hread : Json.read body = .ok (Place.fill (outer ++ inner) v))
    {request : Request} {losses : Losses}
    (hjson : Request.ofJson kind body = .ok (request, losses)) :
    ∃ s : Surroundings, within levels v = true ∧ s.outcome (settled v) = (request, losses) ∧
      s.Decide kind levels (outer ++ inner) := by
  obtain ⟨gs, hgs, hgroups⟩ := Request.envelope_of_ofJson hjson
  rw [envelope_of_read hread, Place.fill_append] at hgs
  obtain ⟨f, b, hf, hb, rfl, hexchange⟩ :=
    (leads_item (naming_apart kind) 121 outer houter).exchange hgs
  obtain ⟨s, hs⟩ := hsurrounds f hf
  -- whether the whole is within the depth is a matter of what stands around, and of the value
  -- alone
  obtain ⟨around, haround⟩ := Json.within_fill levels inner
  rw [hlevels] at haround
  obtain ⟨hwithin, rfl⟩ := Json.settle_eq_ok_iff.1 hb
  obtain ⟨haround', hv⟩ := (haround v).1 hwithin
  refine ⟨s, hv, (hs v hv).symm.trans hgroups, fun body' w hread' => ?_⟩
  have henvelope : envelope kind.naming body' = (plain 121 (inner.fill w)).map f := by
    rw [envelope_of_read hread', Place.fill_append]
    exact hexchange _
  constructor
  · intro hw
    have hsettle : plain 121 (inner.fill w) = .ok (settled (inner.fill w)) :=
      Json.settle_eq_ok _ ((haround w).2 ⟨haround', hw⟩)
    rw [hsettle] at henvelope
    rw [Request.ofJson_of_envelope henvelope, hs w hw]
  · intro hw
    cases hsettle : plain 121 (inner.fill w) with
    | ok b =>
      -- then it would be within the levels
      have hinner := ((haround w).1 (Json.settle_eq_ok_iff.1 hsettle).1).2
      rw [hw] at hinner
      cases hinner
    | error fault =>
      rw [hsettle] at henvelope
      refine ⟨fault, ?_⟩
      rw [Request.ofJson_eq, henvelope]
      rfl

/-! ## Places of records

A place of a record is a path through the envelope to an item, or further on to a point of a
metric. How deep a value at a place may be nested follows from the length of the path. -/

/-- Whether a place is one of a record: a span, a log record, or a point of a metric. -/
inductive IsRecordPlace : RecordKind → Place → Prop
  | span {place : Place} : place.Follows (itemPath traceNaming) → IsRecordPlace .traces place
  | logRecord {place : Place} : place.Follows (itemPath logNaming) → IsRecordPlace .logs place
  | point {place : Place} (k : MetricKind) :
    place.Follows (itemPath metricNaming ++ pointPath k) → IsRecordPlace .metrics place

/-- The levels that are left at a place. -/
def levelsAt (place : Place) : Nat := Json.maxLevels - place.length

/-- The depth that is left at a place is that of a body without the way to it. -/
theorem levelsAt_of_follows {place : Place} {path : List Step} (h : place.Follows path) :
    levelsAt place = Json.maxLevels - path.length := by
  rw [levelsAt, List.Forall₂.length_eq h]

/-- Around the place of a record there are surroundings that decide everything but the record. -/
theorem exists_decide_of_isRecordPlace {kind : RecordKind} {place : Place}
    (hplace : IsRecordPlace kind place) {body : List UInt8} {v : Json}
    (hread : Json.read body = .ok (place.fill v)) {request : Request} {losses : Losses}
    (hjson : Request.ofJson kind body = .ok (request, losses)) :
    ∃ s : Surroundings, s.outcome (settled v) = (request, losses) ∧
      s.Decide kind (levelsAt place) place := by
  -- a point of a metric lies deeper than an item, so its place has an inner part as well
  cases hplace with
  | span hfollows =>
    rw [levelsAt_of_follows hfollows]
    rw [← List.append_nil place] at hread ⊢
    obtain ⟨s, -, hs⟩ := exists_decide hfollows rfl
      (fun _ => exists_surroundings_item span .span .traces (fun _ => rfl) (fun _ _ => rfl)
        fun _ _ => rfl) hread hjson
    exact ⟨s, hs⟩
  | logRecord hfollows =>
    rw [levelsAt_of_follows hfollows]
    rw [← List.append_nil place] at hread ⊢
    obtain ⟨s, -, hs⟩ := exists_decide hfollows rfl
      (fun _ => exists_surroundings_item logRecord .logRecord .logs (fun _ => rfl) (fun _ _ => rfl)
        fun _ _ => rfl) hread hjson
    exact ⟨s, hs⟩
  | point k hfollows =>
    have houter : Place.Follows (place.take (itemPath metricNaming).length)
        (itemPath RecordKind.metrics.naming) :=
      List.forall₂_take_append place (itemPath metricNaming) (pointPath k) hfollows
    have hinner := List.forall₂_drop_append place (itemPath metricNaming) (pointPath k) hfollows
    rw [levelsAt_of_follows hfollows]
    rw [← List.take_append_drop (itemPath metricNaming).length place] at hread ⊢
    have hlevels : 118 + (place.drop (itemPath metricNaming).length).length = 121 := by
      rw [List.Forall₂.length_eq hinner]
      rfl
    obtain ⟨s, -, hs⟩ := exists_decide houter hlevels
      (fun _ hf => exists_surroundings_point hf hinner) hread hjson
    exact ⟨s, hs⟩

/-! ## Requests -/

/-- Whether an export holds of groups exactly what is kept of their items, in order, and counts the
faults of all items, and reports the first of them. -/
structure Partial.Of {α : Type} (p : Partial α) (keep : Json → Option α)
    (faults : Json → List DecodeFault) (gs : List ResourceGroupForm) : Prop where
  items : (p.request.resources.map fun r => r.scopes.map fun s => s.items) =
    gs.map fun g => g.scopes.map fun s => s.items.filterMap keep
  rejected : p.losses.rejected = ((rawItems gs).flatMap faults).length
  firstError : p.losses.firstError = ((rawItems gs).flatMap faults).head?.map .decode

/-- A request is made of its groups, each item for itself. -/
theorem request_of {α : Type} {take : Losses → List Json → List α × Losses} {fate : Json → Fate α}
    {faults : Json → List DecodeFault} (htake : TakesEach take fate)
    (hfaults : ∀ v, (fate v).2 = .ofFaults (faults v)) {n : Naming} {body : List UInt8}
    {gs : List ResourceGroupForm} (hgs : envelope n body = .ok gs) :
    ∃ p, request n take body = .ok p ∧ p.Of (fun v => (fate v).1) faults gs := by
  have hrequest := htake.request_eq n body
  rw [hgs] at hrequest
  obtain ⟨hrejected, hfirst⟩ := losses_of_faults hfaults gs
  refine ⟨_, hrequest, ?_, hrejected, hfirst⟩
  show (gs.map (ResourceGroupForm.converted fate)).map _ = _
  rw [List.map_map]
  exact List.map_congr_left fun g _ => List.map_map

/-- **Records of an export that comes as JSON do not affect each other.** Of each scope those that
convert on their own are kept, in their order, and the others are counted. What stands at the
place of a record decides only on what is made of it there, and on one rejection at most, as long
as it can be read there at all; otherwise the whole export is refused. -/
theorem record_isolation :
    (∀ body gs, envelope traceNaming body = .ok gs →
      ∃ p, traces body = .ok p ∧ p.Of (fun v => (span v).toOption) (faultsOf span) gs) ∧
    (∀ body gs, envelope logNaming body = .ok gs →
      ∃ p, logs body = .ok p ∧ p.Of (fun v => (logRecord v).toOption) (faultsOf logRecord) gs) ∧
    (∀ body gs, envelope metricNaming body = .ok gs →
      ∃ p, metrics body = .ok p ∧ p.Of (fun v => (metricFate v).1) metricFaults gs) ∧
    ∀ kind place, IsRecordPlace kind place →
      ∀ body v request losses, Json.read body = .ok (place.fill v) →
        Request.ofJson kind body = .ok (request, losses) →
        ∃ s : Surroundings, s.outcome (settled v) = (request, losses) ∧
          ∀ body' w, Json.read body' = .ok (place.fill w) →
            (within (levelsAt place) w = true →
              Request.ofJson kind body' = .ok (s.outcome (settled w)) ∧
              (s.outcome (settled w)).2.rejected ≤ losses.rejected + 1 ∧
              losses.rejected ≤ (s.outcome (settled w)).2.rejected + 1) ∧
            (within (levelsAt place) w = false →
              ∃ fault, Request.ofJson kind body' = .error (.decode (.malformedBody fault))) := by
  refine ⟨fun body gs hgs => ?_, fun body gs hgs => ?_, fun body gs hgs => ?_, ?_⟩
  · have hrequest := request_of (takesEach_take span) (snd_fateOf span) hgs
    simp only [fst_fateOf] at hrequest
    exact hrequest
  · have hrequest := request_of (takesEach_take logRecord) (snd_fateOf logRecord) hgs
    simp only [fst_fateOf] at hrequest
    exact hrequest
  · exact request_of takesEach_takeMetrics snd_metricFate hgs
  · intro kind place hplace body v request losses hread hjson
    obtain ⟨s, hs, hdecide⟩ := exists_decide_of_isRecordPlace hplace hread hjson
    have hlosses : losses = (s.outcome (settled v)).2 := by rw [hs]
    refine ⟨s, hs, fun body' w hread' => ⟨fun hw => ⟨(hdecide body' w hread').1 hw, ?_, ?_⟩,
      (hdecide body' w hread').2⟩⟩
    · rw [hlosses]
      exact s.rejected_le _ _
    · rw [hlosses]
      exact s.rejected_le _ _

/-- The text of an export, with something in place of its only record. -/
def textAround (item : List Char) : RecordKind → List Char
  | .metrics => "\x7b\"resourceMetrics\":[\x7b\"scopeMetrics\":[\x7b\"metrics\":[".toList ++
      "\x7b\"gauge\":\x7b\"dataPoints\":[".toList ++ item ++ "]\x7d\x7d]\x7d]\x7d]\x7d".toList
  | .traces => "\x7b\"resourceSpans\":[\x7b\"scopeSpans\":[\x7b\"spans\":[".toList ++ item ++
      "]\x7d]\x7d]\x7d".toList
  | .logs => "\x7b\"resourceLogs\":[\x7b\"scopeLogs\":[\x7b\"logRecords\":[".toList ++ item ++
      "]\x7d]\x7d]\x7d".toList

/-- The bytes of such an export. -/
def bodyAround (item : List Char) (kind : RecordKind) : List UInt8 :=
  Text.Utf8.encode (textAround item kind)

/-- The place of the record. -/
def recordPlace : RecordKind → Place
  | .metrics => [.member [] "resourceMetrics" [], .item [] [], .member [] "scopeMetrics" [],
      .item [] [], .member [] "metrics" [], .item [] [], .member [] "gauge" [],
      .member [] "dataPoints" [], .item [] []]
  | .traces => [.member [] "resourceSpans" [], .item [] [], .member [] "scopeSpans" [],
      .item [] [], .member [] "spans" [], .item [] []]
  | .logs => [.member [] "resourceLogs" [], .item [] [], .member [] "scopeLogs" [], .item [] [],
      .member [] "logRecords" [], .item [] []]

/-- The place in the bodies below is one of a record. -/
theorem isRecordPlace_recordPlace (kind : RecordKind) : IsRecordPlace kind (recordPlace kind) := by
  -- the steps are taken by the frames one by one
  cases kind with
  | metrics => refine .point .gauge ?_; repeat' constructor
  | traces => refine .span ?_; repeat' constructor
  | logs => refine .logRecord ?_; repeat' constructor

/-- Arrays in arrays. -/
def nested : Nat → Json
  | 0 => .null
  | depth + 1 => .array [nested depth]

/-- The text of arrays in arrays. -/
def nestedText (depth : Nat) : List Char :=
  List.replicate depth '[' ++ "null".toList ++ List.replicate depth ']'

/-- The body around nothing. -/
theorem read_bodyAround_null (kind : RecordKind) :
    Json.read (bodyAround "null".toList kind) = .ok ((recordPlace kind).fill .null) := by
  cases kind <;> exact Json.read_of_readsAs (by decide +kernel)

/-- The body around a value that is no record. -/
theorem read_bodyAround_true (kind : RecordKind) :
    Json.read (bodyAround "true".toList kind) = .ok ((recordPlace kind).fill (.bool true)) := by
  cases kind <;> exact Json.read_of_readsAs (by decide +kernel)

/-- The body around a value that is too deep. -/
theorem read_bodyAround_nested : Json.read (bodyAround (nestedText 122) .traces) =
    .ok ((recordPlace .traces).fill (nested 122)) :=
  Json.read_of_readsAs (by decide +kernel)

/-- It makes a request all the same. -/
theorem ofJson_bodyAround_null (kind : RecordKind) : ∃ request losses,
    Request.ofJson kind (bodyAround "null".toList kind) = .ok (request, losses) := by
  have hread : (Request.ofJson kind (bodyAround "null".toList kind)).toOption.isSome = true := by
    cases kind <;> decide +kernel
  obtain ⟨⟨request, losses⟩, h⟩ := Option.isSome_iff_exists.1 hread
  exact ⟨request, losses, Fallible.toOption_eq_some.1 h⟩

/-- Both laws at work: a value that is no record in the place of another one changes nothing
around it, but one that is too deep costs the body. -/
theorem record_isolation_of_null :
    (∃ gs p, envelope traceNaming (bodyAround "null".toList .traces) = .ok gs ∧
      traces (bodyAround "null".toList .traces) = .ok p ∧
      p.Of (fun v => (span v).toOption) (faultsOf span) gs) ∧
    (∃ gs p, envelope logNaming (bodyAround "null".toList .logs) = .ok gs ∧
      logs (bodyAround "null".toList .logs) = .ok p ∧
      p.Of (fun v => (logRecord v).toOption) (faultsOf logRecord) gs) ∧
    (∃ gs p, envelope metricNaming (bodyAround "null".toList .metrics) = .ok gs ∧
      metrics (bodyAround "null".toList .metrics) = .ok p ∧
      p.Of (fun v => (metricFate v).1) metricFaults gs) ∧
    (∀ kind, ∃ s : Surroundings,
      Request.ofJson kind (bodyAround "null".toList kind) = .ok (s.outcome .null) ∧
      Request.ofJson kind (bodyAround "true".toList kind) = .ok (s.outcome (.bool true))) ∧
    ∃ fault, Request.ofJson .traces (bodyAround (nestedText 122) .traces) =
      .error (.decode (.malformedBody fault)) := by
  obtain ⟨htraces, hlogs, hmetrics, hplaces⟩ := record_isolation
  have henvelope (kind : RecordKind) :
      ∃ gs, envelope kind.naming (bodyAround "null".toList kind) = .ok gs := by
    obtain ⟨request, losses, hjson⟩ := ofJson_bodyAround_null kind
    obtain ⟨gs, hgs, -⟩ := Request.envelope_of_ofJson hjson
    exact ⟨gs, hgs⟩
  -- the three laws of one body, then that of two bodies, and last the one for a value that is too
  -- deep
  refine ⟨?_, ?_, ?_, fun kind => ?_, ?_⟩
  · obtain ⟨gs, hgs⟩ := henvelope .traces
    obtain ⟨p, hp, hof⟩ := htraces _ gs hgs
    exact ⟨gs, p, hgs, hp, hof⟩
  · obtain ⟨gs, hgs⟩ := henvelope .logs
    obtain ⟨p, hp, hof⟩ := hlogs _ gs hgs
    exact ⟨gs, p, hgs, hp, hof⟩
  · obtain ⟨gs, hgs⟩ := henvelope .metrics
    obtain ⟨p, hp, hof⟩ := hmetrics _ gs hgs
    exact ⟨gs, p, hgs, hp, hof⟩
  · obtain ⟨request, losses, hjson⟩ := ofJson_bodyAround_null kind
    obtain ⟨s, hs, hother⟩ := hplaces kind _ (isRecordPlace_recordPlace kind) _ .null request losses
      (read_bodyAround_null kind) hjson
    refine ⟨s, hjson.trans (congrArg _ hs.symm), ?_⟩
    exact ((hother _ _ (read_bodyAround_true kind)).1 (by cases kind <;> decide)).1
  · obtain ⟨request, losses, hjson⟩ := ofJson_bodyAround_null .traces
    obtain ⟨s, -, hother⟩ := hplaces .traces _ (isRecordPlace_recordPlace .traces) _ .null request
      losses (read_bodyAround_null .traces) hjson
    exact (hother _ _ read_bodyAround_nested).2 (by decide +kernel)

/-- So not everything may stand at the place of a record: what is nested too deep costs the
export. -/
theorem nested_record_costs_the_export :
    ¬ ∀ kind place, IsRecordPlace kind place →
      ∀ body body' v w request losses, Json.read body = .ok (place.fill v) →
        Json.read body' = .ok (place.fill w) →
        Request.ofJson kind body = .ok (request, losses) →
        ∃ request' losses', Request.ofJson kind body' = .ok (request', losses') ∧
          losses'.rejected ≤ losses.rejected + 1 := by
  intro h
  have hplace := isRecordPlace_recordPlace .traces
  have hnull := read_bodyAround_null .traces
  obtain ⟨request, losses, hjson⟩ := ofJson_bodyAround_null .traces
  obtain ⟨s, -, hdecide⟩ := exists_decide_of_isRecordPlace hplace hnull hjson
  obtain ⟨fault, hrefused⟩ := (hdecide _ _ read_bodyAround_nested).2 (by decide +kernel)
  obtain ⟨request', losses', hread, -⟩ :=
    h .traces _ hplace _ _ _ _ request losses hnull read_bodyAround_nested hjson
  rw [hread] at hrefused
  cases hrefused

end Telemetry.Otlp.FromJson
