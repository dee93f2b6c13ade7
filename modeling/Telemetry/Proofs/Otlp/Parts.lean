import Mathlib.Algebra.GroupWithZero.Nat
import Mathlib.Data.List.Basic
import Telemetry.Otlp.Request
import Telemetry.Proofs.Fallible

/-!
The parts of a request, and what becomes of each of them.

A request is divided into its spans, its log records or its points. Each part is a request of its
own, in the groups by resource and by scope that it stood in. A metric without data is one part, and
so is a metric with neither a name nor a point; for both of them one refusal is counted.

Decoding sees one part at a time: from a part it makes one unit or one refusal, and from a request
what it makes of the parts, one after another (`Request.decode_eq_concat`).
-/

set_option autoImplicit false

namespace Telemetry.Otlp

open Time (Instant)

/-! ## Outcomes one after another

Decoding goes item by item, and outcomes are put together as lists are: units behind units,
refusals added, and the earlier of two reasons first. -/

namespace Decoded

instance : Append Decoded :=
  ⟨fun d d' => ⟨d.units ++ d'.units, d.rejected + d'.rejected, d.firstError <|> d'.firstError⟩⟩

/-- Outcomes one after another: all units, all that was refused, and the first reason. -/
def concat (ds : List Decoded) : Decoded := ds.foldr (· ++ ·) {}

/-- The units of several decodings are those of each. -/
theorem units_concat (ds : List Decoded) : (concat ds).units = ds.flatMap (·.units) := by
  induction ds with
  | nil => rfl
  | cons d ds ih =>
    rw [List.flatMap_cons, ← ih]
    rfl

/-- The first error of several decodings is that of the first one that has any. -/
theorem firstError_concat (ds : List Decoded) :
    (concat ds).firstError = ds.findSome? (·.firstError) := by
  induction ds with
  | nil => rfl
  | cons d ds ih =>
    have hcons : (concat (d :: ds)).firstError = (d.firstError <|> (concat ds).firstError) := rfl
    rw [hcons, ih, List.findSome?_cons]
    cases d.firstError <;> rfl

/-- Results one after another are decoded one after another. -/
theorem ofResults_append (results results' : List (Except Error WriteUnit)) :
    ofResults (results ++ results') = ofResults results ++ ofResults results' := by
  induction results with
  | nil =>
    show _ = Decoded.mk _ _ _
    simp [ofResults]
  | cons result results ih =>
    rw [List.cons_append]
    cases result with
    | ok unit =>
      rw [ofResults, ih]
      rfl
    | error e =>
      rw [ofResults, ih]
      show Decoded.mk _ _ _ = Decoded.mk _ _ _
      rw [ofResults, Nat.add_right_comm]
      rfl

theorem ofResults_flatMap {α : Type} (results : α → List (Except Error WriteUnit)) (as : List α) :
    ofResults (as.flatMap results) = concat (as.map fun a => ofResults (results a)) := by
  induction as with
  | nil => rfl
  | cons a as ih =>
    rw [List.flatMap_cons, ofResults_append, ih]
    rfl

/-- Each result is a unit or is rejected. -/
theorem length_units_add_rejected (results : List (Except Error WriteUnit)) :
    (ofResults results).units.length + (ofResults results).rejected = results.length := by
  induction results with
  | nil => rfl
  | cons result results ih =>
    cases result with
    | ok unit =>
      rw [List.length_cons, ← ih, Nat.add_right_comm]
      rfl
    | error e =>
      rw [List.length_cons, ← ih]
      rfl

/-- There is an error exactly if something is rejected. -/
theorem isSome_firstError_iff (results : List (Except Error WriteUnit)) :
    (ofResults results).firstError.isSome = true ↔ 0 < (ofResults results).rejected := by
  induction results with
  | nil => simp [ofResults]
  | cons result results ih =>
    cases result with
    | ok unit => exact ih
    | error e => simp [ofResults]

end Decoded

/-! ## Lists that differ in one place

Two requests that differ in one item have parts that differ in one place, and so have what is
decoded of them. The relation is carried through the levels of the envelope by `map` and
`flatMap`. -/

/-- Whether two lists differ in one place only, where what stands there is related. -/
def DifferInOne {α : Type} (rel : α → α → Prop) (as as' : List α) : Prop :=
  ∃ before a a' after, as = before ++ a :: after ∧ as' = before ++ a' :: after ∧ rel a a'

section DifferInOne

variable {α β : Type} {rel : α → α → Prop} {rel' : β → β → Prop} {as as' : List α}

theorem DifferInOne.imp {rel' : α → α → Prop} (h : DifferInOne rel as as')
    (hrel : ∀ a a', rel a a' → rel' a a') : DifferInOne rel' as as' := by
  obtain ⟨before, a, a', after, heq, heq', haa'⟩ := h
  exact ⟨before, a, a', after, heq, heq', hrel a a' haa'⟩

/-- Lists that differ in one item still do after a map that respects the relation. -/
theorem DifferInOne.map {f : α → β} (h : DifferInOne rel as as')
    (hrel : ∀ a a', rel a a' → rel' (f a) (f a')) : DifferInOne rel' (as.map f) (as'.map f) := by
  obtain ⟨before, a, a', after, rfl, rfl, haa'⟩ := h
  refine ⟨before.map f, f a, f a', after.map f, ?_, ?_, hrel a a' haa'⟩
  · rw [List.map_append, List.map_cons]
  · rw [List.map_append, List.map_cons]

theorem DifferInOne.flatMap {f : α → List β} (h : DifferInOne rel as as')
    (hrel : ∀ a a', rel a a' → DifferInOne rel' (f a) (f a')) :
    DifferInOne rel' (as.flatMap f) (as'.flatMap f) := by
  obtain ⟨before, a, a', after, rfl, rfl, haa'⟩ := h
  obtain ⟨front, b, b', back, hb, hb', hbb'⟩ := hrel a a' haa'
  refine ⟨before.flatMap f ++ front, b, b', back ++ after.flatMap f, ?_, ?_, hbb'⟩
  · rw [List.flatMap_append, List.flatMap_cons, hb]
    simp only [List.append_assoc, List.cons_append]
  · rw [List.flatMap_append, List.flatMap_cons, hb']
    simp only [List.append_assoc, List.cons_append]

end DifferInOne

/-! ## Exports in parts

A part is an export of one item with the attributes of its resource, so a part is decoded like any
other request. -/

namespace Export

variable {α : Type}

instance : Append (Export α) := ⟨fun e e' => ⟨e.resources ++ e'.resources⟩⟩

/-- An export of one item that stands in these groups. -/
def single (r : ResourceGroup α) (s : ScopeGroup α) (i : α) : Export α :=
  ⟨[{ r with scopes := [{ s with items := [i] }] }]⟩

/-- The parts of an export whose items are divided in some way. -/
def parts (split : α → List α) (e : Export α) : List (Export α) :=
  e.resources.flatMap fun r =>
    r.scopes.flatMap fun s => s.items.flatMap fun i => (split i).map (single r s)

/-- The sum over all items of an export. -/
def total (size : α → Nat) (e : Export α) : Nat :=
  (e.resources.map fun r => (r.scopes.map fun s => (s.items.map size).sum).sum).sum

/-- Whether two exports differ in one item only, in a given way. -/
def DifferInItem (rel : α → α → Prop) (e e' : Export α) : Prop :=
  DifferInOne (fun r r' => r' = { r with scopes := r'.scopes } ∧
    DifferInOne (fun s s' => s' = { s with items := s'.items } ∧
      DifferInOne rel s.items s'.items) r.scopes r'.scopes) e.resources e'.resources

/-- What becomes of the items of an export, each with the service of its resource. -/
def results (decode : String → α → List (Except Error WriteUnit)) (e : Export α) :
    List (Except Error WriteUnit) :=
  e.items.flatMap fun (service, i) => decode service i

variable {split : α → List α} {decode : String → α → List (Except Error WriteUnit)}

theorem results_append (e e' : Export α) :
    (e ++ e').results decode = e.results decode ++ e'.results decode := by
  have hitems : (e ++ e').items = e.items ++ e'.items := List.flatMap_append
  rw [results, hitems, List.flatMap_append]
  rfl

/-- An export of one item has the results of this item. -/
theorem results_single (r : ResourceGroup α) (s : ScopeGroup α) (i : α) :
    (single r s i).results decode = decode (serviceName r.resource) i :=
  List.append_nil _

/-- What becomes of an export is what becomes of its parts, one after another. -/
theorem results_parts (hsplit : ∀ service i, decode service i = (split i).flatMap (decode service))
    (e : Export α) : e.results decode = (e.parts split).flatMap (results decode) := by
  simp only [results, items, parts, List.flatMap_assoc, List.flatMap_map]
  refine List.flatMap_congr fun r _ => List.flatMap_congr fun s _ => ?_
  refine List.flatMap_congr fun i _ => ?_
  rw [hsplit]
  exact List.flatMap_congr fun j _ => by simp [single]

theorem length_parts {size : α → Nat} (hsplit : ∀ i, (split i).length = size i) (e : Export α) :
    (e.parts split).length = e.total size := by
  simp only [parts, total, List.length_flatMap, List.length_map, hsplit]

/-- A part of an export is one of the things that an item is split into, in the group of that
item. -/
theorem mem_parts {e p : Export α} (h : p ∈ e.parts split) :
    ∃ r s i j, j ∈ split i ∧ p = single r s j := by
  simp only [parts, List.mem_flatMap, List.mem_map] at h
  obtain ⟨r, -, s, -, i, -, j, hj, rfl⟩ := h
  exact ⟨r, s, i, j, hj, rfl⟩

theorem DifferInItem.imp {rel rel' : α → α → Prop} {e e' : Export α} (h : e.DifferInItem rel e')
    (hrel : ∀ i i', rel i i' → rel' i i') : e.DifferInItem rel' e' :=
  DifferInOne.imp h fun _ _ hr => ⟨hr.1, hr.2.imp fun _ _ hs => ⟨hs.1, hs.2.imp hrel⟩⟩

/-- Exports that differ in one part of one item have the same parts up to that one. -/
theorem DifferInItem.parts {e e' : Export α}
    (h : e.DifferInItem (fun i i' => DifferInOne (fun _ _ => True) (split i) (split i')) e') :
    DifferInOne (fun _ _ => True) (e.parts split) (e'.parts split) := by
  refine h.flatMap fun r r' ⟨hr, hscopes⟩ => ?_
  rw [hr]
  refine hscopes.flatMap fun s s' ⟨hs, hitems⟩ => ?_
  rw [hs]
  refine hitems.flatMap fun i i' hparts => ?_
  -- the part stands in the same groups on both sides
  exact hparts.map fun _ _ _ => trivial

end Export

/-! ## Parts of a metric

A metric has one part for each point, since points are refused on their own. One without points
has a part nevertheless if it is refused as a whole. -/

/-- Data divided into its points. -/
def MetricData.split : MetricData → List MetricData
  | .gauge points => points.map fun p => .gauge [p]
  | .sum points temporality monotonic => points.map fun p => .sum [p] temporality monotonic
  | .histogram points temporality => points.map fun p => .histogram [p] temporality
  | .exponential points temporality => points.map fun p => .exponential [p] temporality
  | .summary points => points.map fun p => .summary [p]

theorem MetricData.length_split (d : MetricData) : d.split.length = d.size := by
  cases d <;> simp [split, size]

theorem MetricData.size_of_mem_split {d d' : MetricData} (h : d' ∈ d.split) : d'.size = 1 := by
  cases d <;> obtain ⟨p, -, rfl⟩ := List.mem_map.1 h <;> rfl

namespace Metric

/-- The parts of a metric: one with each of its points. Without data it is one part, and without a
name it is one even if there are no points. -/
def parts (m : Metric) : List Metric :=
  match m.data with
  | none => [m]
  | some d =>
    if m.name.isEmpty = true ∧ d.size = 0 then [m]
    else d.split.map fun d => { m with data := some d }

/-- How often a metric counts: as often as it has points, except once without data, and at least
once without a name. -/
def subRecords (m : Metric) : Nat :=
  match m.data with
  | none => 1
  | some d => if m.name.isEmpty then max d.size 1 else d.size

/-- A metric with data is split into its points, unless it is nameless and has none. -/
theorem parts_of_data {m : Metric} {d : MetricData} (hdata : m.data = some d)
    (hkept : m.name.isEmpty = false ∨ d.size ≠ 0) :
    m.parts = d.split.map fun d => { m with data := some d } := by
  rw [parts, hdata]
  refine if_neg ?_
  rintro ⟨hname, hsize⟩
  rcases hkept with hnamed | hpoints
  · rw [hname] at hnamed
    cases hnamed
  · exact hpoints hsize

/-- A nameless metric counts as its points, but at least as one. -/
theorem subRecords_of_nameless {m : Metric} (hname : m.name.isEmpty = true) :
    m.subRecords = max ((m.data.map MetricData.size).getD 0) 1 := by
  rw [subRecords]
  cases m.data with
  | none => rfl
  | some d => simp only [hname, if_true, Option.map_some, Option.getD_some]

theorem subRecords_of_named {m : Metric} {d : MetricData} (hname : m.name.isEmpty = false)
    (hdata : m.data = some d) : m.subRecords = d.size := by
  simp only [subRecords, hdata, hname, Bool.false_eq_true, if_false]

/-- A metric has as many parts as it counts for. -/
theorem length_parts (m : Metric) : m.parts.length = m.subRecords := by
  rw [parts, subRecords]
  cases m.data with
  | none => rfl
  | some d =>
    by_cases hname : m.name.isEmpty = true <;> by_cases hsize : d.size = 0 <;>
      simp only [hname, hsize, and_self, and_true, true_and, if_true, if_false, List.length_map,
        MetricData.length_split, List.length_singleton, Bool.false_eq_true]
    · rfl
    · omega

/-- A part has the name of its metric, and counts once. -/
theorem of_mem_parts {m p : Metric} (h : p ∈ m.parts) : p.name = m.name ∧ p.subRecords = 1 := by
  -- a metric without data is one part, and so is a nameless one without points
  cases hdata : m.data with
  | none =>
    rw [parts, hdata] at h
    obtain rfl := List.mem_singleton.1 h
    exact ⟨rfl, by rw [subRecords, hdata]⟩
  | some d =>
    by_cases hnothing : m.name.isEmpty = true ∧ d.size = 0
    · rw [parts, hdata] at h
      simp only [hnothing, and_self, if_true, List.mem_singleton] at h
      rw [h, subRecords_of_nameless hnothing.1, hdata, Option.map_some, hnothing.2]
      exact ⟨rfl, rfl⟩
    · rw [parts_of_data hdata (by simpa using not_and_or.1 hnothing), List.mem_map] at h
      obtain ⟨d', hd', rfl⟩ := h
      have hsize := MetricData.size_of_mem_split hd'
      refine ⟨rfl, ?_⟩
      rw [subRecords]
      simp only [hsize]
      exact ite_self 1

variable {service : String} {received : Instant}

/-- A metric without a name is refused as often as it counts. -/
theorem decodeMetric_of_nameless {m : Metric} (hname : m.name.isEmpty = true) :
    decodeMetric service received m =
      List.replicate m.subRecords (.error (.decode .emptyMetricName)) := by
  rw [decodeMetric, if_pos hname, subRecords_of_nameless hname]

/-- Decoding a metric has as many results as it counts for. -/
theorem length_decodeMetric (m : Metric) :
    (decodeMetric service received m).length = m.subRecords := by
  by_cases hname : m.name.isEmpty = true
  · rw [decodeMetric_of_nameless hname, List.length_replicate]
  · rw [decodeMetric, if_neg hname]
    cases hdata : m.data with
    | none => rw [subRecords, hdata]; rfl
    | some d =>
      rw [subRecords_of_named (by simpa using hname) hdata]
      cases d <;> exact List.length_map _

/-- Decoding a metric is decoding its parts, one after another. -/
theorem decodeMetric_parts (m : Metric) :
    decodeMetric service received m = m.parts.flatMap (decodeMetric service received) := by
  by_cases hname : m.name.isEmpty = true
  · -- all parts are refused like the metric, and there are as many as it counts
    have heach : ∀ p ∈ m.parts, decodeMetric service received p =
        [.error (.decode .emptyMetricName)] := by
      intro p hp
      obtain ⟨hpname, hsize⟩ := of_mem_parts hp
      rw [decodeMetric_of_nameless (hpname ▸ hname), hsize]
      rfl
    rw [List.flatMap_congr heach, decodeMetric_of_nameless hname, ← length_parts,
      ← List.map_eq_flatMap, List.map_const']
  -- with a name, the results of a metric are those of its points
  · cases hdata : m.data with
    | none =>
      rw [parts, hdata]
      exact (List.append_nil _).symm
    | some d =>
      rw [parts_of_data hdata (.inl (by simpa using hname)), List.flatMap_map]
      cases d <;>
        simp only [decodeMetric, if_neg hname, hdata, MetricData.split, List.flatMap_map,
          List.map_cons, List.map_nil, ← List.map_eq_flatMap]

theorem exists_decodeMetric_of_mem_parts {m p : Metric} (h : p ∈ m.parts) :
    ∃ result, decodeMetric service received p = [result] :=
  List.length_eq_one_iff.1 ((length_decodeMetric p).trans (of_mem_parts h).2)

end Metric

/-! ## Units are not empty -/

/-- A point that is decoded makes at least one row. -/
theorem ne_nil_of_decodePoint {metric service : String} {received : Instant} {time : UInt64}
    {attributes : List KeyValue} {rows : RowBase → List Telemetry.Metric} {unit : WriteUnit}
    (hrows : ∀ b, rows b ≠ [])
    (h : decodePoint metric service received time attributes rows = .ok unit) : unit ≠ [] := by
  obtain ⟨t, -, hunit⟩ := Fallible.bind_eq_ok h
  obtain rfl := Except.ok.inj hunit
  exact fun hnil => hrows _ (List.map_eq_nil_iff.1 hnil)

/-- A number that is decoded makes a row. -/
theorem ne_nil_of_decodeNumber {metric service : String} {received : Instant} {p : NumberPoint}
    {unit : WriteUnit} (h : decodeNumber metric service received p = .ok unit) : unit ≠ [] := by
  rw [decodeNumber] at h
  split at h
  · cases h
  · exact ne_nil_of_decodePoint (fun _ => List.cons_ne_nil _ _) h

/-- What a metric is decoded to has a row for each of its points at least. -/
theorem ne_nil_of_decodeMetric {service : String} {received : Instant} {m : Metric}
    {unit : WriteUnit} (h : .ok unit ∈ decodeMetric service received m) : unit ≠ [] := by
  rw [decodeMetric] at h
  split at h
  · cases (List.mem_replicate.1 h).2
  · split at h
    · cases List.mem_singleton.1 h
    · obtain ⟨p, -, hp⟩ := List.mem_map.1 h
      exact ne_nil_of_decodeNumber hp
    · obtain ⟨p, -, hp⟩ := List.mem_map.1 h
      exact ne_nil_of_decodeNumber hp
    -- the other kinds of points all begin with their counts
    all_goals
      obtain ⟨p, -, hp⟩ := List.mem_map.1 h
      exact ne_nil_of_decodePoint (fun _ => List.cons_ne_nil _ _) hp

/-! ## Requests in parts

The three signals share their envelope and differ in their items. From here on, a part is a
request of one item, whatever the signal. -/

/-- What becomes of a metric. -/
def metricResults (received : Instant) (service : String) (m : Metric) :
    List (Except Error WriteUnit) :=
  decodeMetric service received m

/-- What becomes of a span. -/
def spanResults (service : String) (s : Span) : List (Except Error WriteUnit) :=
  [(decodeSpan service s).map fun s => [.span s]]

/-- What becomes of a log record. -/
def logResults (received : Instant) (service : String) (r : LogRecord) :
    List (Except Error WriteUnit) :=
  [(decodeLog service received r).map fun l => [.log l]]

namespace Request

/-- The parts of a request. -/
def parts : Request → List Request
  | .metrics e => (e.parts Metric.parts).map .metrics
  | .traces e => (e.parts fun s => [s]).map .traces
  | .logs e => (e.parts fun r => [r]).map .logs

/-- How many spans, log records or points a request counts. -/
def subRecords : Request → Nat
  | .metrics e => e.total Metric.subRecords
  | .traces e => e.total fun _ => 1
  | .logs e => e.total fun _ => 1

/-- Two requests of one signal as one. -/
def append? : Request → Request → Option Request
  | .metrics e, .metrics e' => some (.metrics (e ++ e'))
  | .traces e, .traces e' => some (.traces (e ++ e'))
  | .logs e, .logs e' => some (.logs (e ++ e'))
  | _, _ => none

/-- Whether two requests of one signal differ in one span, log record or point only. -/
def DifferInPart : Request → Request → Prop
  | .metrics e, .metrics e' =>
    e.DifferInItem (fun m m' => DifferInOne (fun _ _ => True) m.parts m'.parts) e'
  | .traces e, .traces e' => e.DifferInItem (fun _ _ => True) e'
  | .logs e, .logs e' => e.DifferInItem (fun _ _ => True) e'
  | _, _ => False

/-- What becomes of the parts of a request, in order. -/
def results (received : Instant) : Request → List (Except Error WriteUnit)
  | .metrics e => e.results (metricResults received)
  | .traces e => e.results spanResults
  | .logs e => e.results (logResults received)

variable {received : Instant}

/-- A request is decoded to its results. -/
theorem decode_eq_ofResults (r : Request) :
    r.decode received = .ofResults (r.results received) := by
  cases r with
  | metrics e => rfl
  | traces e => exact congrArg Decoded.ofResults List.map_eq_flatMap
  | logs e => exact congrArg Decoded.ofResults List.map_eq_flatMap

/-- The results of a request are those of its parts. -/
theorem results_parts (r : Request) :
    r.results received = r.parts.flatMap (results received) := by
  cases r with
  | metrics e =>
    rw [parts, List.flatMap_map]
    have hsplit : ∀ service m, metricResults received service m =
        m.parts.flatMap (metricResults received service) := fun _ => Metric.decodeMetric_parts
    exact Export.results_parts hsplit e
  | traces e =>
    rw [parts, List.flatMap_map]
    exact Export.results_parts (fun _ _ => rfl) e
  | logs e =>
    rw [parts, List.flatMap_map]
    exact Export.results_parts (fun _ _ => rfl) e

/-- A request has as many parts as it counts for. -/
theorem length_parts (r : Request) : r.parts.length = r.subRecords := by
  cases r with
  | metrics e => exact (List.length_map _).trans (Export.length_parts Metric.length_parts e)
  | traces e => exact (List.length_map _).trans (Export.length_parts (fun _ => rfl) e)
  | logs e => exact (List.length_map _).trans (Export.length_parts (fun _ => rfl) e)

/-- One thing becomes of a part. -/
theorem exists_results_of_mem_parts {r p : Request} (h : p ∈ r.parts) :
    ∃ result, p.results received = [result] := by
  cases r with
  | metrics e =>
    obtain ⟨_, hp, rfl⟩ := List.mem_map.1 h
    obtain ⟨g, s, m, p, hmem, rfl⟩ := Export.mem_parts hp
    rw [results, Export.results_single]
    exact Metric.exists_decodeMetric_of_mem_parts hmem
  | traces e =>
    obtain ⟨_, hp, rfl⟩ := List.mem_map.1 h
    obtain ⟨g, s, i, p, -, rfl⟩ := Export.mem_parts hp
    exact ⟨_, rfl⟩
  | logs e =>
    obtain ⟨_, hp, rfl⟩ := List.mem_map.1 h
    obtain ⟨g, s, i, p, -, rfl⟩ := Export.mem_parts hp
    exact ⟨_, rfl⟩

/-- No unit of a request is empty. -/
theorem ne_nil_of_mem_results {r : Request} {unit : WriteUnit}
    (h : .ok unit ∈ r.results received) : unit ≠ [] := by
  cases r with
  | metrics e =>
    obtain ⟨⟨service, m⟩, -, hunit⟩ := List.mem_flatMap.1 h
    exact ne_nil_of_decodeMetric hunit
  | traces e =>
    obtain ⟨⟨service, s⟩, -, hunit⟩ := List.mem_flatMap.1 h
    obtain ⟨span, -, rfl⟩ := Fallible.map_eq_ok (List.mem_singleton.1 hunit).symm
    exact List.cons_ne_nil _ _
  | logs e =>
    obtain ⟨⟨service, l⟩, -, hunit⟩ := List.mem_flatMap.1 h
    obtain ⟨log, -, rfl⟩ := Fallible.map_eq_ok (List.mem_singleton.1 hunit).symm
    exact List.cons_ne_nil _ _

/-! ## Decoding part by part

These are the statements that accounts of exports are made of: how many outcomes there are, how
they are put together, and what changes with one part. -/

/-- What a request is decoded to is what its parts are decoded to, one after another. -/
theorem decode_eq_concat (r : Request) :
    r.decode received = .concat (r.parts.map (decode received)) := by
  rw [decode_eq_ofResults, results_parts, Decoded.ofResults_flatMap]
  simp only [← decode_eq_ofResults]

/-- A part is decoded to one unit, which is not empty, or to one refusal. -/
theorem decode_of_mem_parts {r p : Request} (h : p ∈ r.parts) :
    (∃ unit ≠ [], p.decode received = { units := [unit] }) ∨
      ∃ e, p.decode received = { rejected := 1, firstError := some e } := by
  obtain ⟨result, hresult⟩ : ∃ result, p.results received = [result] :=
    exists_results_of_mem_parts h
  rw [decode_eq_ofResults, hresult]
  cases result with
  | ok unit => exact .inl ⟨unit, ne_nil_of_mem_results (hresult ▸ List.mem_cons_self), rfl⟩
  | error e => exact .inr ⟨e, rfl⟩

/-- Units and refusals are as many as the request counts. -/
theorem length_units_add_rejected (r : Request) (received : Instant) :
    (r.decode received).units.length + (r.decode received).rejected = r.subRecords := by
  have hone : ∀ p ∈ r.parts, (p.results received).length = 1 := fun p hp =>
    List.length_eq_one_iff.2 (exists_results_of_mem_parts hp)
  have hsum : (r.parts.map fun p => (p.results received).length).sum = r.parts.length := by
    rw [List.map_congr_left hone, List.map_const', List.sum_replicate_nat, Nat.mul_one]
  rw [decode_eq_ofResults, Decoded.length_units_add_rejected, results_parts, List.length_flatMap,
    hsum, length_parts]

/-- Requests one after another are decoded one after another. -/
theorem decode_append {r r' both : Request} (h : r.append? r' = some both) :
    both.decode received = r.decode received ++ r'.decode received := by
  rw [decode_eq_ofResults, decode_eq_ofResults, decode_eq_ofResults, ← Decoded.ofResults_append]
  refine congrArg Decoded.ofResults ?_
  cases r <;> cases r' <;> cases h <;> rw [results, Export.results_append] <;> rfl

/-- Requests that differ in one part have the same parts before and behind it. -/
theorem DifferInPart.parts {r r' : Request} (h : r.DifferInPart r') :
    DifferInOne (fun _ _ => True) r.parts r'.parts := by
  -- a span and a log record is its own only part
  have halone : ∀ {α : Type} {e e' : Export α}, e.DifferInItem (fun _ _ => True) e' →
      DifferInOne (fun _ _ => True) (e.parts fun i => [i]) (e'.parts fun i => [i]) :=
    fun h => Export.DifferInItem.parts (h.imp fun i i' _ => ⟨[], i, i', [], rfl, rfl, trivial⟩)
  cases r <;> cases r' <;> first | exact False.elim h | skip
  · exact (Export.DifferInItem.parts h).map fun _ _ _ => trivial
  · exact (halone h).map fun _ _ _ => trivial
  · exact (halone h).map fun _ _ _ => trivial

theorem units_eq_flatMap_parts (r : Request) :
    (r.decode received).units = r.parts.flatMap fun p => (p.decode received).units := by
  rw [decode_eq_concat, Decoded.units_concat, List.flatMap_map]

theorem firstError_eq_findSome_parts (r : Request) :
    (r.decode received).firstError = r.parts.findSome? fun p => (p.decode received).firstError := by
  rw [decode_eq_concat, Decoded.firstError_concat, List.findSome?_map]
  rfl

/-- Where requests differ in one part, the units of all others are the same. -/
theorem DifferInPart.units {r r' : Request} (h : r.DifferInPart r') (received : Instant) :
    ∃ before p p' after us vs,
      r.parts = before ++ p :: after ∧ r'.parts = before ++ p' :: after ∧
      (r.decode received).units = us ++ (p.decode received).units ++ vs ∧
      (r'.decode received).units = us ++ (p'.decode received).units ++ vs := by
  obtain ⟨before, p, p', after, hparts, hparts', -⟩ := h.parts
  refine ⟨before, p, p', after, before.flatMap fun p => (p.decode received).units,
    after.flatMap fun p => (p.decode received).units, hparts, hparts', ?_, ?_⟩
  · rw [units_eq_flatMap_parts, hparts, List.flatMap_append, List.flatMap_cons, List.append_assoc]
  · rw [units_eq_flatMap_parts, hparts', List.flatMap_append, List.flatMap_cons, List.append_assoc]

end Request

end Telemetry.Otlp
