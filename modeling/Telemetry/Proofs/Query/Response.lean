import Telemetry.Otlp.Decode
import Telemetry.Proofs.Query.Cancellation
import Telemetry.Proofs.Series.Listing
import Telemetry.Proofs.Store.Retrieval
import Telemetry.Query.Response

/-!
Which series a client can tell apart in the body that answers a query.

Whatever a query applies to its series, no two of the result have the same labels, and all have the
same name. A body puts the name of a series among its labels, in place of a label that is called
like that, so that two series stay apart in the body exactly if they differ in another label
(`pairwise_metric_ne_iff`). Attributes may be called anything: `namedTwice` is an export whose two
series are one to a client.
-/

set_option autoImplicit false

namespace Telemetry

open Time (Instant)

/-! ## Results -/

namespace Query

open Fallible
open Series (Listed LabelledBy)

variable {query : Query} {window : Window} {result : QueryResult}

/-- What is true of the series of rows, and stays true when a function or an aggregation is applied,
is true of the series of a result. -/
theorem Plan.finish_induction {p : Plan} {rows : List Row} {holds : List Series → Prop}
    (hrows : holds (Series.ofRows rows))
    (happly : ∀ name range time series out, holds series →
      Series.apply name series range time = .ok out → holds out)
    (haggregate : ∀ a time series out, holds series →
      Series.aggregate a series time = .ok out → holds out)
    (h : p.finish rows = .ok result) : holds result.series := by
  obtain ⟨applied, happlied, h⟩ := bind_eq_ok h
  obtain ⟨aggregated, haggregated, h⟩ := bind_eq_ok h
  cases h
  have hfunction : holds applied := by
    unfold Plan.applied at happlied
    split at happlied
    next name _ => exact happly name _ _ _ _ hrows happlied
    next => exact Except.ok.inj happlied ▸ hrows
  unfold Plan.aggregated at haggregated
  split at haggregated
  next a _ => exact haggregate a _ _ _ hfunction haggregated
  next => exact Except.ok.inj haggregated ▸ hfunction

/-- The rows of a plan were asked of the store under the name of the metric. -/
theorem name_of_mem_fetch {s : Store} {cancelled : Bool} {f : Fetch} {rows : List Row}
    (h : s.fetch cancelled f = .ok rows) {row : Row} (hrow : row ∈ rows) :
    ∃ m ∈ s.metrics.records, m.name = f.metric ∧ row = Store.rowOf m := by
  rw [Store.fetch] at h
  split at h
  next => cases h
  next =>
  obtain ⟨start, -, h⟩ := bind_eq_ok h
  obtain ⟨stop, -, h⟩ := bind_eq_ok h
  obtain rfl := Except.ok.inj h
  obtain ⟨r, hr, rfl⟩ := List.mem_map.1 hrow
  rw [List.mem_mergeSort, List.mem_filter, Store.answers, Bool.and_eq_true, Bool.and_eq_true,
    beq_iff_eq] at hr
  exact ⟨r.record, List.mem_map_of_mem hr.1, hr.2.1.1, rfl⟩

/-- A plan asks for the metric of its query. -/
theorem metric_of_plan {p : Plan} (h : plan query window = .ok p) :
    p.fetch.metric = query.metric := by
  rcases plan_cases query window with ⟨e, -, herror⟩ | ⟨-, ⟨herror, -⟩ | ⟨p', hp', hasks⟩⟩
  · cases h.symm.trans herror
  · cases h.symm.trans herror
  · obtain rfl := Except.ok.inj (h.symm.trans hp')
    exact hasks.metric

/-- A result is that of the bare function `time`, or that of the rows of a plan. -/
theorem of_evaluate_eq_ok {fetch : Fetch → Except Error (List Row)} {cancelled : Bool}
    (h : (evaluate (Source.ofAnswers fetch cancelled) query window :
      Id (Except Error QueryResult)) = .ok result) :
    result = ⟨.scalar, [Series.timeSeries window.stop]⟩ ∨
      ∃ p rows, plan query window = .ok p ∧ fetch p.fetch = .ok rows ∧
        p.finish rows = .ok result := by
  -- each step of the chain has passed
  rw [evaluate_ofAnswers] at h
  split at h
  next => exact .inl (Except.ok.inj h).symm
  next =>
  split at h
  next => cases h
  next p hplan =>
  split at h
  next => cases h
  next rows hfetch =>
  split at h
  next => cases h
  next result' hfinish =>
  split at h
  next => cases h
  next =>
    obtain rfl := Except.ok.inj h
    exact .inr ⟨p, rows, hplan, hfetch, hfinish⟩

/-! ## Bodies

A series is written as its labels with the name of the metric on top. The name takes the place of
a label `__name__`. -/

/-- Two series are one to a client exactly if they differ in nothing but the label that the name
replaces. -/
theorem metric_ofSeries_eq_iff {s t : Series} :
    (ResponseSeries.ofSeries s).metric = (ResponseSeries.ofSeries t).metric ↔
      s.name = t.name ∧ s.labels.erase nameLabel = t.labels.erase nameLabel :=
  Dictionary.insert_eq_insert_iff

/-- Series of one name stay apart exactly if they do without that label. -/
theorem pairwise_metric_ne_iff {series : List Series} (h : Listed series) :
    ((series.map ResponseSeries.ofSeries).Pairwise fun a b => a.metric ≠ b.metric) ↔
      series.Pairwise fun s t => s.labels.erase nameLabel ≠ t.labels.erase nameLabel := by
  rw [List.pairwise_map]
  refine List.Pairwise.iff_of_mem fun {s t} hs ht => ?_
  rw [ne_eq, metric_ofSeries_eq_iff, and_iff_right (h.named s hs t ht)]

/-- Without that label they stay apart as they are. -/
theorem pairwise_metric_ne_of_lacks {series : List Series} (h : Listed series)
    (hlacks : ∀ s ∈ series, s.labels.contains nameLabel = false) :
    (series.map ResponseSeries.ofSeries).Pairwise fun a b => a.metric ≠ b.metric := by
  rw [pairwise_metric_ne_iff h]
  refine h.labels_ne.imp_of_mem fun {s t} hs ht hne => ?_
  rw [Dictionary.erase_eq_self_iff.2 (hlacks s hs), Dictionary.erase_eq_self_iff.2 (hlacks t ht)]
  exact hne

/-- Whether a body keeps the series of a result apart and gives their labels back. -/
structure Faithful (series : List Series) (body : List ResponseSeries) : Prop where
  apart : body.Pairwise fun a b => a.metric ≠ b.metric
  labels : List.Forall₂ (fun s b => b.metric.erase nameLabel = s.labels) series body

/-- A body is faithful exactly if no series has a label that the name replaces. -/
theorem faithful_iff {series : List Series} (h : Listed series) :
    Faithful series (series.map ResponseSeries.ofSeries) ↔
      ∀ s ∈ series, s.labels.contains nameLabel = false := by
  have hlabels : List.Forall₂ (fun s b => b.metric.erase nameLabel = s.labels) series
      (series.map ResponseSeries.ofSeries) ↔
        ∀ s ∈ series, s.labels.contains nameLabel = false := by
    rw [List.forall₂_map_right_iff, List.forall₂_same]
    refine forall₂_congr fun s _ => ?_
    rw [ResponseSeries.ofSeries, Dictionary.erase_insert, Dictionary.erase_eq_self_iff]
  constructor
  · intro hfaithful
    exact hlabels.1 hfaithful.labels
  · intro hlacks
    exact ⟨pairwise_metric_ne_of_lacks h hlacks, hlabels.2 hlacks⟩

/-- The row of a value has the label that the name replaces exactly if the value has it. -/
theorem contains_nameLabel_rowOf (m : Metric) :
    (Store.rowOf m).labels.contains nameLabel = m.labels.contains nameLabel := by
  have hne : nameLabel ≠ "service" := by decide
  rw [Store.rowOf, Dictionary.insertNew]
  split
  next => rfl
  next => rw [Dictionary.contains, Dictionary.get?_insert, if_neg hne, Dictionary.contains]

/-- The series of a result are listed, and their labels come from values of the metric. -/
theorem listed_of_evaluate {s : Store} {cancelled : Bool}
    (h : (evaluate (s.source cancelled) query window : Id (Except Error QueryResult)) =
      .ok result) :
    Listed result.series ∧ ∃ rows, LabelledBy rows result.series ∧
      ∀ row ∈ rows, ∃ m ∈ s.metrics.records, m.name = query.metric ∧ row = Store.rowOf m := by
  have hanswers : (evaluate (Source.ofAnswers (s.fetch cancelled) cancelled) query window :
      Id (Except Error QueryResult)) = .ok result := h
  -- the time function gives one series without labels; any other answer is finished from fetched
  -- rows
  rcases of_evaluate_eq_ok hanswers with rfl | ⟨p, rows, hplan, hfetch, hfinish⟩
  · refine ⟨⟨List.pairwise_singleton _ _, ?_⟩, [], ?_, nofun⟩
    · intro a ha b hb
      rw [List.mem_singleton.1 ha, List.mem_singleton.1 hb]
    · intro a ha e he
      rw [List.mem_singleton.1 ha] at he
      cases he
  -- the rows of one fetch have one name, and each is that of a stored metric
  · have hrows : ∀ row ∈ rows, ∃ m ∈ s.metrics.records,
        m.name = query.metric ∧ row = Store.rowOf m := by
      intro row hrow
      rw [← metric_of_plan hplan]
      exact name_of_mem_fetch hfetch hrow
    have hname : ∀ a ∈ rows, ∀ b ∈ rows, a.name = b.name := by
      intro a ha b hb
      obtain ⟨m, -, hm, rfl⟩ := hrows a ha
      obtain ⟨m', -, hm', rfl⟩ := hrows b hb
      exact hm.trans hm'.symm
    refine ⟨?_, rows, ?_, hrows⟩
    · exact Plan.finish_induction (Series.listed_ofRows hname)
        (fun _ _ _ _ _ hlisted happly => hlisted.apply happly)
        (fun _ _ _ _ hlisted haggregate => hlisted.aggregate haggregate) hfinish
    · exact Plan.finish_induction (Series.labelledBy_ofRows rows)
        (fun _ _ _ _ _ hlabels happly => hlabels.apply happly)
        (fun _ _ _ _ hlabels haggregate => hlabels.aggregate haggregate) hfinish

/-- **The body that answers a query keeps series apart by the labels that their name does not
replace.** Whatever a store holds and a query asks of it, no two series of a result have the same
labels. In the body a series bears its name, and its labels but the one that is called like that; so
its series are apart exactly if those of the result are without this label. They are apart and the
labels are given back exactly if no series has it, in particular where no value of the metric does.
-/
theorem response_keeps_apart {s : Store} {cancelled : Bool}
    (h : (evaluate (s.source cancelled) query window : Id (Except Error QueryResult)) =
      .ok result) :
    result.series.Pairwise (fun a b => a.labels ≠ b.labels) ∧
    ∃ body, (Response.success result).data = some (result.kind, body) ∧
      List.Forall₂ (fun a b => b.metric.get? nameLabel = some a.name ∧
        b.metric.erase nameLabel = a.labels.erase nameLabel) result.series body ∧
      ((body.Pairwise fun a b => a.metric ≠ b.metric) ↔
        result.series.Pairwise fun a b => a.labels.erase nameLabel ≠ b.labels.erase nameLabel) ∧
      (Faithful result.series body ↔
        ∀ a ∈ result.series, a.labels.contains nameLabel = false) ∧
      ((∀ m ∈ s.metrics.records, m.name = query.metric → m.labels.contains nameLabel = false) →
        Faithful result.series body) := by
  obtain ⟨hlisted, rows, hlabels, hrows⟩ := listed_of_evaluate h
  refine ⟨hlisted.labels_ne, _, rfl, ?_, pairwise_metric_ne_iff hlisted, faithful_iff hlisted, ?_⟩
  · rw [List.forall₂_map_right_iff, List.forall₂_same]
    intro a _
    rw [ResponseSeries.ofSeries, Dictionary.get?_insert, if_pos rfl, Dictionary.erase_insert]
    exact ⟨rfl, rfl⟩
  · intro hlacks
    refine (faithful_iff hlisted).2 fun a ha => ?_
    rw [Bool.eq_false_iff]
    intro hcontains
    -- a label of a series is one of a row, and so of a value of the metric
    obtain ⟨v, hv⟩ := Option.isSome_iff_exists.1 hcontains
    obtain ⟨row, hrow, he⟩ := hlabels a ha _ (Dictionary.get?_eq_some_iff.1 hv)
    obtain ⟨m, hm, hname, rfl⟩ := hrows row hrow
    have hlack := hlacks m hm hname
    rw [← contains_nameLabel_rowOf, Dictionary.contains, Dictionary.get?_eq_some_iff.2 he] at hlack
    cases hlack

/-! ## Series that a body makes one

So two series that differ in this label alone have the same body. -/

/-- An export of a gauge with two points, whose attributes differ only in one that is called like
the label for the name. -/
def namedTwice : Otlp.Export Otlp.Metric where
  resources := [{
    resource := some { attributes := [("service.name", .string "api")] }
    scopes := [{ items := [{
      name := "up"
      data := some (.gauge [
        { time := 1000, attributes := [("__name__", .string "a")], value := some (.double 1) },
        { time := 1000, attributes := [("__name__", .string "b")], value := some (.double 2) }]) }]
      }] }]

/-- A value of this gauge. -/
def namedValue (name : String) (value : Float) : Metric where
  time := .ofNanos 1000
  name := "up"
  value := value
  labels := Dictionary.empty.insert nameLabel name
  service := "api"

/-- The export below is decoded to two values. -/
theorem units_namedTwice : (Otlp.decodeMetrics namedTwice .epoch).units =
    [[.metric (namedValue "a" 1)], [.metric (namedValue "b" 2)]] := rfl

/-- A store with the units of an export. -/
def storeOf (e : Otlp.Export Otlp.Metric) (received : Instant) : Store :=
  Store.empty.insertEach ((Otlp.decodeMetrics e received).units.map fun unit => (received, unit))

/-- Both of them are stored. -/
theorem records_namedTwice : (storeOf namedTwice .epoch).metrics.records =
    [namedValue "a" 1, namedValue "b" 2] := by
  have hfits : Text.Integer.fitsSigned64 (Instant.ofNanos 1000).toNanos = true := by decide
  have hforms (name : String) (value : Float) :
      Store.storedForms [.metric (namedValue name value)] = [.metric (namedValue name value)] := by
    refine Store.storedForms_eq_self (fun r hr => ?_) fun r hr => ?_
    · rw [List.mem_singleton.1 hr]
      exact ⟨_, Metric.admit_eq_ok hfits⟩
    · rw [List.mem_singleton.1 hr]
      rfl
  have hcontents : (storeOf namedTwice .epoch).contents =
      Store.empty.contents.append [.metric (namedValue "a" 1), .metric (namedValue "b" 2)] := by
    rw [storeOf, Store.contents_insertEach, units_namedTwice]
    simp only [List.map_cons, List.map_nil, List.flatMap_cons, List.flatMap_nil, hforms]
    rfl
  have hmetrics (s : Store) : s.metrics.records = s.contents.metrics := rfl
  rw [hmetrics, hcontents]
  rfl

/-- The first second. -/
def openingSecond : Window := ⟨.epoch, .ofNanos 1000000000, by decide⟩

/-- The two series of the gauge. -/
def namedResult : QueryResult where
  kind := .vector
  series := [⟨"up", (namedValue "a" 1).seriesLabels, [⟨.ofNanos 1000, 1⟩]⟩,
    ⟨"up", (namedValue "b" 2).seriesLabels, [⟨.ofNanos 1000, 2⟩]⟩]

/-- And both are found, as two series. -/
theorem evaluate_namedTwice :
    (evaluate ((storeOf namedTwice .epoch).source false) { metric := "up" } openingSecond :
      Id (Except Error QueryResult)) = .ok namedResult := by
  let f : Fetch := ⟨"up", .epoch, .ofNanos 1000000000, .empty⟩
  have hselected : (storeOf namedTwice .epoch).selected f =
      [namedValue "a" 1, namedValue "b" 2] := by
    rw [Store.selected, records_namedTwice]
    rfl
  have hfetch : (storeOf namedTwice .epoch).fetch false f =
      .ok [Store.rowOf (namedValue "a" 1), Store.rowOf (namedValue "b" 2)] := by
    rw [Store.fetch_eq_ok (by decide) (by decide), hselected,
      List.mergeSort_of_pairwise (by decide)]
    rfl
  have hkeyA : (Store.rowOf (namedValue "a" 1)).labels.key = "__name__=a,service=api" := by
    rw [Labels.key_of_ascending (by decide)]
    rfl
  have hkeyB : (Store.rowOf (namedValue "b" 2)).labels.key = "__name__=b,service=api" := by
    rw [Labels.key_of_ascending (by decide)]
    rfl
  -- the attribute is in the key, so the two points stand in groups of their own
  have hgroups : (Dictionary.collect (fun row : Row => row.labels.key)
      [Store.rowOf (namedValue "a" 1), Store.rowOf (namedValue "b" 2)]).entries =
        [("__name__=a,service=api", Store.rowOf (namedValue "a" 1), []),
          ("__name__=b,service=api", Store.rowOf (namedValue "b" 2), [])] := by
    simp only [Dictionary.collect, List.foldl_cons, List.foldl_nil, hkeyA, hkeyB]
    rfl
  have hseries : Series.ofRows [Store.rowOf (namedValue "a" 1), Store.rowOf (namedValue "b" 2)] =
      namedResult.series := by
    rw [Series.ofRows, hgroups]
    simp only [List.map_cons, List.map_nil, sortPoints, List.mergeSort_singleton]
    rfl
  have hplan : plan { metric := "up" } openingSecond =
      .ok { fetch := f, function := none, aggregation := none, range := none,
            stop := .ofNanos 1000000000, kind := .vector } := rfl
  show (evaluate (Source.ofAnswers ((storeOf namedTwice .epoch).fetch false) false)
    { metric := "up" } openingSecond : Id (Except Error QueryResult)) = _
  rw [evaluate_ofAnswers, hplan]
  simp only [hfetch, Plan.finish, hseries]
  rfl

/-- The theorem for them: their labels differ, and their bodies do not. -/
theorem response_keeps_apart_of_namedTwice :
    (evaluate ((storeOf namedTwice .epoch).source false) { metric := "up" } openingSecond :
      Id (Except Error QueryResult)) = .ok namedResult ∧
    (namedResult.series.Pairwise fun a b => a.labels ≠ b.labels) ∧
    ∃ body, (Response.success namedResult).data = some (.vector, body) ∧
      ¬ body.Pairwise fun a b => a.metric ≠ b.metric := by
  obtain ⟨hlabels, body, hdata, -, hapart, -⟩ := response_keeps_apart evaluate_namedTwice
  refine ⟨evaluate_namedTwice, hlabels, body, hdata, ?_⟩
  rw [hapart]
  decide

/-- **A body may make two series one**, where an export has such an attribute. -/
theorem response_merges_series :
    ¬ ∀ (e : Otlp.Export Otlp.Metric) (received : Instant) (query : Query) (window : Window)
      (result : QueryResult),
      (evaluate ((storeOf e received).source false) query window :
        Id (Except Error QueryResult)) = .ok result → result.kind ≠ .scalar →
      ∀ body, (Response.success result).data = some (result.kind, body) →
        body.Pairwise fun a b => a.metric ≠ b.metric := by
  intro h
  have happart := h _ _ _ _ _ evaluate_namedTwice nofun _ rfl
  revert happart
  decide

end Query

end Telemetry
