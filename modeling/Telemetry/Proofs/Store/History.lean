import Telemetry.Proofs.Store.Insertion
import Telemetry.Proofs.Store.Selection
import Telemetry.Store.Retention

/-!
What can be read from a store after any history of changes.

A history is a list of insertions and removals, each of which may fail, applied to an empty store.
Its live records are those of the insertions that succeeded, as far as no later change removes them
(`live`); this is said of the history alone. One change filters the contents and adds to them
(`contents_after`), so the contents after a history are its live records (`contents_ofHistory`), and
all that can be read is about these and nothing else (`reads_show_live`).

The label rows need no attention here: that they agree with the metrics is part of the type of
stores, and reading through them has been reduced to the metrics.
-/

set_option autoImplicit false

namespace Telemetry

open Time (Instant)

theorem Record.time_of_admit {r stored : Record} (h : r.admit = .ok stored) :
    stored.time = .ofNanos r.time.toNanos := by
  obtain ⟨-, -, rfl⟩ := admit_eq_ok_iff.1 h
  exact r.time_atStoredTime

namespace Store

/-! ## Histories

A history is a list of insertions and removals, the earliest first. A record that was inserted is
live if no later removal takes it; what the store holds is compared with these records. -/

/-- A change: an attempt to insert records at an instant, or to remove what is older than one. -/
inductive Change where
  | insertion (now : Instant) (rs : List Record)
  | removal (cutoff : Instant)

/-- The store after a change. A removal that fails changes nothing. -/
def after (s : Store) : Change → Store
  | .insertion now rs => (s.insertAll now rs).1
  | .removal cutoff =>
    match s.purgeBefore cutoff with
    | .ok (kept, _) => kept
    | .error _ => s

/-- The store that a history makes of an empty one. -/
def ofHistory (changes : List Change) : Store := changes.foldl after empty

/-- What a change inserts: the stored forms of its records, if all of them are admitted. -/
def Change.inserts : Change → List Record
  | .insertion _ rs => storedForms rs
  | .removal _ => []

/-- Whether a change removes a record. A cutoff that fits no word removes nothing. -/
def Change.removes : Change → Record → Bool
  | .insertion _ _, _ => false
  | .removal cutoff, r =>
    Text.Integer.fitsSigned64 cutoff.toNanos && decide (r.time.toNanos < cutoff.toNanos)

/-- Whether none of some changes removes a record. -/
def outlives (changes : List Change) (r : Record) : Bool := changes.all fun c => !c.removes r

/-- The live records of a history, in the order of their insertion: what each change inserts, as far
as no later one removes it. -/
def live : List Change → List Record
  | [] => []
  | c :: later => c.inserts.filter (outlives later) ++ live later

/-! ## Contents after a history

An insertion adds to the contents and a removal takes from them, so one change is a filter
followed by an addition, and the whole history is the list of the live records. -/

/-- The records of the contents that satisfy a condition. -/
def Contents.filter (keep : Record → Bool) (c : Contents) : Contents where
  metrics := c.metrics.filter fun m => keep (.metric m)
  spans := c.spans.filter fun s => keep (.span s)
  logs := c.logs.filter fun l => keep (.log l)

/-- Records may be filtered before or after those of one kind are taken from them. -/
theorem filter_filterMap_kind {α : Type} {kind? : Record → Option α} {inject : α → Record}
    (h : ∀ r a, kind? r = some a → r = inject a) (keep : Record → Bool) (rs : List Record) :
    (rs.filterMap kind?).filter (fun a => keep (inject a)) = (rs.filter keep).filterMap kind? := by
  induction rs with
  | nil => rfl
  | cons r rs ih =>
    cases hr : kind? r with
    | none =>
      rw [List.filterMap_cons_none hr, ih, List.filter_cons]
      split
      · rw [List.filterMap_cons_none hr]
      · rfl
    | some a =>
      rw [List.filterMap_cons_some hr, List.filter_cons, List.filter_cons, ← h r a hr, ih]
      split
      · rw [List.filterMap_cons_some hr]
      · rfl

/-- What is kept of contents and of records after them is kept of each. -/
theorem Contents.filter_append (keep : Record → Bool) (c : Contents) (rs : List Record) :
    (c.append rs).filter keep = (c.filter keep).append (rs.filter keep) := by
  have hmetric : ∀ r m, Record.metric? r = some m → r = .metric m := by
    rintro (_ | _ | _) _ ⟨⟩
    rfl
  have hspan : ∀ r s, Record.span? r = some s → r = .span s := by
    rintro (_ | _ | _) _ ⟨⟩
    rfl
  have hlog : ∀ r l, Record.log? r = some l → r = .log l := by
    rintro (_ | _ | _) _ ⟨⟩
    rfl
  simp only [filter, append, List.filter_append, filter_filterMap_kind hmetric,
    filter_filterMap_kind hspan, filter_filterMap_kind hlog]

theorem Contents.filter_filter (keep keep' : Record → Bool) (c : Contents) :
    (c.filter keep).filter keep' = c.filter fun r => keep r && keep' r := by
  simp only [filter, List.filter_filter, Bool.and_comm]

/-- A change keeps what it does not remove, and adds what it inserts. -/
theorem contents_after (s : Store) (c : Change) :
    (s.after c).contents = (s.contents.filter fun r => !c.removes r).append c.inserts := by
  cases c with
  | insertion now rs =>
    rw [after, contents_insertAll]
    simp [Change.inserts, Change.removes, Contents.filter]
  | removal cutoff =>
    rw [Change.inserts, Contents.append_nil]
    cases hfits : Text.Integer.fitsSigned64 cutoff.toNanos with
    | true =>
      -- the cutoff is a word, so exactly the records from it on are kept
      have hkept : s.after (.removal cutoff) = s.keepFrom cutoff.toNanos := by
        rw [after, purgeBefore, Instant.toWord_eq_ok hfits]
        rfl
      have hkeep (t : Instant) : decide (cutoff.toNanos ≤ t.toNanos) =
          !(true && decide (t.toNanos < cutoff.toNanos)) := by
        rw [Bool.true_and, ← decide_not]
        exact decide_eq_decide.2 Int.not_lt.symm
      rw [hkept]
      simp only [contents, keepFrom, Table.records_filter, Contents.filter, Change.removes, hfits,
        Record.time, hkeep]
      rfl
    | false =>
      -- the removal is refused, and so it removes nothing
      have hkept : s.after (.removal cutoff) = s := by
        rw [after, purgeBefore, Instant.toWord_eq_error hfits]
        rfl
      rw [hkept]
      simp [Contents.filter, Change.removes, hfits]

/-- After changes a store has what outlives them of its own, and then what is live of theirs. -/
theorem contents_foldl_after (s : Store) (changes : List Change) :
    (changes.foldl after s).contents =
      (s.contents.filter (outlives changes)).append (live changes) := by
  -- on the changes, for any store before them
  induction changes generalizing s with
  | nil => simp [outlives, live, Contents.filter]
  | cons c later ih =>
    have houtlives : (fun r => !c.removes r && outlives later r) = outlives (c :: later) := rfl
    rw [List.foldl_cons, ih, contents_after, Contents.filter_append, Contents.filter_filter,
      Contents.append_append, houtlives, live]

/-- After a history the contents are its live records. -/
theorem contents_ofHistory (changes : List Change) :
    (ofHistory changes).contents = Contents.append ⟨[], [], []⟩ (live changes) :=
  contents_foldl_after empty changes

/-! ## Rows of a kind -/

/-- The records of a kind among the contents, in the order of their insertion. -/
def Contents.ofKind (c : Contents) : RecordKind → List Record
  | .metrics => c.metrics.map .metric
  | .traces => c.spans.map .span
  | .logs => c.logs.map .log

/-- The records of one kind, of contents and of records after them. -/
theorem Contents.ofKind_append (c : Contents) (rs : List Record) (kind : RecordKind) :
    (c.append rs).ofKind kind = c.ofKind kind ++ rs.filter (·.kind = kind) := by
  induction rs generalizing c with
  | nil => simp
  | cons r rs ih =>
    rw [← List.singleton_append, ← append_append, ih]
    cases r <;> cases kind <;>
      simp [append, ofKind, Record.metric?, Record.span?, Record.log?, Record.kind]

theorem map_record_rows (s : Store) (kind : RecordKind) :
    (s.rows kind).map (·.record) = s.contents.ofKind kind := by
  cases kind <;>
    simp [rows, contents, Contents.ofKind, Table.records, Stored.map]

/-- After a history the rows of a kind hold its live records of this kind. -/
theorem records_ofHistory (changes : List Change) (kind : RecordKind) :
    ((ofHistory changes).rows kind).map (·.record) = (live changes).filter (·.kind = kind) := by
  rw [map_record_rows, contents_ofHistory, Contents.ofKind_append]
  cases kind <;> rfl

/-! ## Live records

Only what was admitted can be live. So the times of live records fit a word and are no leap
seconds, which is what reads by time rely on. -/

/-- A live record was admitted when it was written. -/
theorem exists_admit_of_mem_live {changes : List Change} {stored : Record}
    (h : stored ∈ live changes) : ∃ r : Record, r.admit = .ok stored := by
  induction changes with
  | nil => cases h
  | cons c later ih =>
    rcases List.mem_append.1 h with h | h
    · have hmem := (List.mem_filter.1 h).1
      cases c with
      | removal cutoff => cases hmem
      | insertion now rs =>
        rw [Change.inserts, storedForms] at hmem
        -- an insertion stores the whole list or nothing
        cases hmap : rs.mapM Record.admit with
        | error e =>
          rw [hmap] at hmem
          cases hmem
        | ok admitted =>
          rw [hmap] at hmem
          obtain ⟨r, -, hr⟩ := Fallible.exists_of_mem_mapM hmap hmem
          exact ⟨r, hr⟩
    · exact ih h

/-- No live record has a leap second for its time. -/
theorem isLeap_of_mem_live {changes : List Change} {r : Record} (h : r ∈ live changes) :
    r.time.isLeap = false := by
  obtain ⟨r₀, hr₀⟩ := exists_admit_of_mem_live h
  rw [Record.time_of_admit hr₀, Instant.isLeap_ofNanos]

/-- No row has a leap second for its time, because all times have been stored as nanoseconds. -/
theorem isLeap_of_mem_rows {changes : List Change} {kind : RecordKind} {r : Stored Record}
    (hr : r ∈ (ofHistory changes).rows kind) : r.record.time.isLeap = false := by
  have hmem := List.mem_map_of_mem (f := (·.record)) hr
  rw [records_ofHistory] at hmem
  exact isLeap_of_mem_live (List.mem_filter.1 hmem).1

/-- The live metrics of a history, in the order of their insertion. -/
def liveMetrics (changes : List Change) : List Metric := (live changes).filterMap Record.metric?

/-- The live values of metrics are the live records that are one. -/
theorem mem_liveMetrics {changes : List Change} {m : Metric} :
    m ∈ liveMetrics changes ↔ .metric m ∈ live changes := by
  rw [liveMetrics, List.mem_filterMap]
  constructor
  · rintro ⟨_ | _ | _, hr, ⟨⟩⟩
    exact hr
  · intro h
    exact ⟨_, h, rfl⟩

theorem metrics_ofHistory (changes : List Change) :
    (ofHistory changes).metrics.records = liveMetrics changes :=
  congrArg Contents.metrics (contents_ofHistory changes)

/-! ## Names -/

/-- Whether names are those with a property, each once and in ascending order. -/
def Enumerates (names : List String) (p : String → Prop) : Prop :=
  names.Pairwise (· < ·) ∧ ∀ n, n ∈ names ↔ p n

theorem Enumerates.congr {names : List String} {p q : String → Prop} (h : Enumerates names p)
    (hpq : ∀ n, p n ↔ q n) : Enumerates names q :=
  ⟨h.1, fun n => (h.2 n).trans (hpq n)⟩

/-- Without repetition a list has the same members. -/
theorem distinct_enumerates (names : List String) : Enumerates (distinct names) (· ∈ names) := by
  refine ⟨Dictionary.ascending_keys _, fun n => ?_⟩
  rw [distinct, Dictionary.mem_keys_ofList, List.map_map]
  simp

/-- The services are those of the records of all kinds, except the empty one. -/
theorem serviceNames_enumerates {s : Store} {rs : List Record}
    (h : s.contents = Contents.append ⟨[], [], []⟩ rs) :
    Enumerates s.serviceNames fun n => n ≠ "" ∧ ∃ r ∈ rs, r.service = n := by
  have hmetrics : s.metrics.records = rs.filterMap Record.metric? := congrArg Contents.metrics h
  have hspans : s.spans.records = rs.filterMap Record.span? := congrArg Contents.spans h
  have hlogs : s.logs.records = rs.filterMap Record.log? := congrArg Contents.logs h
  refine (distinct_enumerates _).congr fun n => ?_
  rw [List.mem_filter, hmetrics, hspans, hlogs, and_comm]
  refine and_congr (by simp) ?_
  simp only [List.mem_append, List.mem_map, List.mem_filterMap]
  constructor
  · rintro ((⟨_, ⟨r, hr, hkind⟩, rfl⟩ | ⟨_, ⟨r, hr, hkind⟩, rfl⟩) | ⟨_, ⟨r, hr, hkind⟩, rfl⟩) <;>
    · cases r <;> cases hkind
      exact ⟨_, hr, rfl⟩
  · rintro ⟨r, hr, rfl⟩
    cases r with
    | metric m => exact .inl (.inl ⟨m, ⟨_, hr, rfl⟩, rfl⟩)
    | span s => exact .inl (.inr ⟨s, ⟨_, hr, rfl⟩, rfl⟩)
    | log l => exact .inr ⟨l, ⟨_, hr, rfl⟩, rfl⟩

/-! ## Labels -/

/-- The labels of a metric are those of its rows. -/
theorem mem_keys_labelValues {s : Store} {metric k : String} :
    k ∈ (s.labelValues metric).keys ↔
      ∃ m ∈ s.metrics.records, m.name = metric ∧ k ∈ m.seriesLabels.keys := by
  rw [← Dictionary.contains_iff, Dictionary.contains, labelValues, Dictionary.get?_mapValues,
    Dictionary.get?_collect, Option.isSome_map, Dictionary.isSome_members?]
  simp only [mem_metricLabels, Dictionary.keys, List.mem_map]
  constructor
  · rintro ⟨e, ⟨m, hm, hname, he⟩, rfl⟩
    exact ⟨m, hm, hname, e, he, rfl⟩
  · rintro ⟨m, hm, hname, e, he, rfl⟩
    exact ⟨e, ⟨m, hm, hname, he⟩, rfl⟩

/-- The values of a label are those that it has in rows of the metric, each once. -/
theorem enumerates_of_labelValues {s : Store} {metric k : String} {values : List String}
    (h : (s.labelValues metric).get? k = some values) :
    Enumerates values fun v =>
      ∃ m ∈ s.metrics.records, m.name = metric ∧ m.seriesLabels.get? k = some v := by
  rw [labelValues, Dictionary.get?_mapValues, Dictionary.get?_collect, Option.map_eq_some_iff] at h
  obtain ⟨⟨first, others⟩, hmembers, rfl⟩ := h
  refine (distinct_enumerates _).congr fun v => ?_
  rw [Dictionary.members?_eq_some hmembers, List.mem_map]
  simp only [List.mem_filter, mem_metricLabels, decide_eq_true_eq, Dictionary.get?_eq_some_iff]
  constructor
  · rintro ⟨⟨k', v'⟩, ⟨⟨m, hm, hname, he⟩, rfl⟩, rfl⟩
    exact ⟨m, hm, hname, he⟩
  · rintro ⟨m, hm, hname, he⟩
    exact ⟨(k, v), ⟨⟨m, hm, hname, he⟩, rfl⟩, rfl⟩

/-! ## Counts -/

/-- As many records are of a kind as its reading finds. -/
theorem length_filterMap_kind (rs : List Record) :
    (rs.filterMap Record.metric?).length = rs.countP (·.kind = .metrics) ∧
    (rs.filterMap Record.span?).length = rs.countP (·.kind = .traces) ∧
    (rs.filterMap Record.log?).length = rs.countP (·.kind = .logs) := by
  simp only [List.length_filterMap_eq_countP]
  refine ⟨?_, ?_, ?_⟩ <;> exact List.countP_congr fun r _ => by
    cases r <;> simp [Record.metric?, Record.span?, Record.log?, Record.kind]

/-- The counts of a store are those of its records, kind by kind. -/
theorem counts_eq {s : Store} {rs : List Record}
    (h : s.contents = Contents.append ⟨[], [], []⟩ rs) :
    s.counts = ⟨rs.countP (·.kind = .metrics), rs.countP (·.kind = .traces),
      rs.countP (·.kind = .logs)⟩ := by
  have hsize {α : Type} (t : Table α) : t.size = t.records.length := (List.length_map _).symm
  have hmetrics : s.metrics.records = rs.filterMap Record.metric? := congrArg Contents.metrics h
  have hspans : s.spans.records = rs.filterMap Record.span? := congrArg Contents.spans h
  have hlogs : s.logs.records = rs.filterMap Record.log? := congrArg Contents.logs h
  obtain ⟨hm, hs, hl⟩ := length_filterMap_kind rs
  rw [counts, hsize, hsize, hsize, hmetrics, hspans, hlogs, hm, hs, hl]

/-! ## Rows by time

The rows of a fetch are sorted by time, and those of one time keep the order of their insertion.
This is said by the positions that they have in the list of live metrics. -/

/-- Whether metrics are those of a list with a property, each once, by ascending time and, at one
time, in the order of the list. -/
def EnumeratesByTime (ms all : List Metric) (p : Metric → Prop) : Prop :=
  ∃ positions : List Nat,
    ms.map some = positions.map (all[·]?) ∧
    (∀ i, i ∈ positions ↔ ∃ m, all[i]? = some m ∧ p m) ∧
    positions.Pairwise fun i j => ∀ m n, all[i]? = some m → all[j]? = some n →
      m.time < n.time ∨ (m.time = n.time ∧ i < j)

/-- What a request selects by nanoseconds is what it asks for by time, among metrics that have no
leap second for their time. -/
theorem asksFor_iff {f : Query.Fetch} {m : Metric} (hm : m.time.isLeap = false)
    (hstart : f.start.isLeap = false) (hstop : f.stop.isLeap = false) :
    asksFor f m = true ↔ m.name = f.metric ∧ f.start ≤ m.time ∧ m.time ≤ f.stop ∧
      f.labels.entries ⊆ m.seriesLabels.entries := by
  rw [asksFor, Bool.and_eq_true, Bool.and_eq_true, beq_iff_eq, decide_eq_true_eq, includes_iff,
    Instant.le_iff_toNanos_le hstart hm, Instant.le_iff_toNanos_le hm hstop, and_assoc, and_assoc]

/-- Rows that are selected and sorted enumerate what was asked for, by time. Without leap seconds
the order of times is that of their nanoseconds. -/
theorem sorted_enumerates {all : List Metric} (hall : ∀ m ∈ all, m.time.isLeap = false)
    {f : Query.Fetch} (hstart : f.start.isLeap = false) (hstop : f.stop.isLeap = false) :
    EnumeratesByTime ((all.filter (asksFor f)).mergeSort fun a b =>
        decide (a.time.toNanos ≤ b.time.toNanos)) all fun m =>
      m.name = f.metric ∧ f.start ≤ m.time ∧ m.time ≤ f.stop ∧
        f.labels.entries ⊆ m.seriesLabels.entries := by
  obtain ⟨positions, hmap, hmem, hsorted⟩ :=
    Sorting.exists_positions (fun m : Metric => m.time.toNanos) (asksFor f) all
  refine ⟨positions, hmap, fun i => ?_, hsorted.imp fun h m n hm hn => ?_⟩
  · rw [hmem]
    refine exists_congr fun m => and_congr_right fun hm => ?_
    exact asksFor_iff (hall m (List.mem_of_getElem? hm)) hstart hstop
  · have hmleap := hall m (List.mem_of_getElem? hm)
    have hnleap := hall n (List.mem_of_getElem? hn)
    rcases h m n hm hn with hlt | ⟨heq, hij⟩
    · left
      have hnot : ¬ n.time ≤ m.time := by
        rw [Instant.le_iff_toNanos_le hnleap hmleap]
        omega
      exact Decidable.not_not.1 (mt Instant.le_iff.2 hnot)
    · right
      refine ⟨?_, hij⟩
      rw [← Instant.ofNanos_toNanos hmleap, heq, Instant.ofNanos_toNanos hnleap]

/-! ## All that can be read -/

/-- **Reads reflect exactly the live records.** After any history a request for the rows of a metric
is answered with its live values that are asked for, each once, by ascending time and then in the
order of their insertion, under the labels of their series; the labels of a metric are those of the
series of its live values; the names are those of live records; and live records are counted. -/
theorem reads_show_live (changes : List Change) {f : Query.Fetch}
    (hstart : Text.Integer.fitsSigned64 f.start.toNanos = true)
    (hstop : Text.Integer.fitsSigned64 f.stop.toNanos = true)
    (hstartLeap : f.start.isLeap = false) (hstopLeap : f.stop.isLeap = false) :
    (∃ ms : List Metric,
      (ofHistory changes).fetch false f =
        .ok (ms.map fun m => ⟨f.metric, m.time, m.value, m.seriesLabels⟩) ∧
      EnumeratesByTime ms (liveMetrics changes) fun m =>
        m.name = f.metric ∧ f.start ≤ m.time ∧ m.time ≤ f.stop ∧
          f.labels.entries ⊆ m.seriesLabels.entries) ∧
    (∀ name k,
      (k ∈ ((ofHistory changes).labelValues name).keys ↔
        ∃ m ∈ liveMetrics changes, m.name = name ∧ k ∈ m.seriesLabels.keys) ∧
      ∀ values, ((ofHistory changes).labelValues name).get? k = some values →
        Enumerates values fun v =>
          ∃ m ∈ liveMetrics changes, m.name = name ∧ m.seriesLabels.get? k = some v) ∧
    Enumerates (ofHistory changes).metricNames (fun n => ∃ m ∈ liveMetrics changes, m.name = n) ∧
    Enumerates (ofHistory changes).serviceNames
      (fun n => n ≠ "" ∧ ∃ r ∈ live changes, r.service = n) ∧
    (ofHistory changes).counts = ⟨(live changes).countP (·.kind = .metrics),
      (live changes).countP (·.kind = .traces), (live changes).countP (·.kind = .logs)⟩ := by
  -- every read is one of the contents, and those are the live records
  have hcontents := contents_ofHistory changes
  have hmetrics := metrics_ofHistory changes
  have hleap : ∀ m ∈ liveMetrics changes, m.time.isLeap = false :=
    fun m hm => isLeap_of_mem_live (mem_liveMetrics.1 hm)
  refine ⟨?_, fun name k => ⟨?_, fun values h => ?_⟩, ?_, serviceNames_enumerates hcontents,
    counts_eq hcontents⟩
  · have hsorted := sorted_enumerates hleap hstartLeap hstopLeap
    refine ⟨_, ?_, hsorted⟩
    rw [fetch_eq_ok hstart hstop, selected, hmetrics]
    refine congrArg _ (List.map_congr_left fun m hm => ?_)
    -- what was selected has the name that was asked for
    have hasked := (List.mem_filter.1 ((List.mergeSort_perm _ _).mem_iff.1 hm)).2
    rw [asksFor, Bool.and_eq_true, Bool.and_eq_true, beq_iff_eq] at hasked
    rw [← hasked.1.1]
    rfl
  · rw [mem_keys_labelValues, hmetrics]
  · rw [← hmetrics]
    exact enumerates_of_labelValues h
  · refine (distinct_enumerates _).congr fun n => ?_
    rw [List.mem_map, hmetrics]

/-- A value of a metric at a second. -/
def valueAt (second : Int) (service : String) : Metric where
  time := .ofNanos (second * Time.nanosPerSecond)
  name := "up"
  value := 1.0
  labels := Dictionary.empty.insert "host" "a"
  service := service

/-- A span with a negative duration, which is refused. -/
def backwardSpan : Span where
  traceId := "01"
  spanId := "02"
  parentSpanId := none
  service := "api"
  operation := "read"
  start := .epoch
  duration := -1
  status := .ok
  attributes := Dictionary.empty

/-- Two insertions, the second of which is refused for its span, and the removal of the earlier one
of the two values that were inserted. -/
def mixedHistory : List Change :=
  [.insertion .epoch [.metric (valueAt 1 "api"), .metric (valueAt 5 "web")],
   .insertion .epoch [.metric (valueAt 6 "web"), .span backwardSpan],
   .removal (.ofNanos 2000000000)]

/-- The theorem after a history with a removal in it: every read shows the one live value. -/
theorem reads_show_live_of_mixedHistory :
    liveMetrics mixedHistory = [valueAt 5 "web"] ∧
    (∃ ms : List Metric,
      (ofHistory mixedHistory).fetch false
          ⟨"up", .epoch, Instant.ofNanos 9000000000, Dictionary.empty⟩ =
        .ok (ms.map fun m => ⟨"up", m.time, m.value, m.seriesLabels⟩) ∧
      EnumeratesByTime ms (liveMetrics mixedHistory) fun m =>
        m.name = "up" ∧ Instant.epoch ≤ m.time ∧ m.time ≤ Instant.ofNanos 9000000000 ∧
          (Dictionary.empty : Labels).entries ⊆ m.seriesLabels.entries) ∧
    (∃ values, ((ofHistory mixedHistory).labelValues "up").get? "host" = some values ∧
      Enumerates values fun v => ∃ m ∈ liveMetrics mixedHistory, m.name = "up" ∧
        m.seriesLabels.get? "host" = some v) ∧
    (ofHistory mixedHistory).counts = ⟨(live mixedHistory).countP (·.kind = .metrics),
      (live mixedHistory).countP (·.kind = .traces),
      (live mixedHistory).countP (·.kind = .logs)⟩ := by
  have h := reads_show_live mixedHistory
    (f := ⟨"up", .epoch, Instant.ofNanos 9000000000, Dictionary.empty⟩)
    (by decide) (by decide) (by decide) (by decide)
  have hfirst : storedForms [.metric (valueAt 1 "api"), .metric (valueAt 5 "web")] =
      [.metric (valueAt 1 "api"), .metric (valueAt 5 "web")] :=
    storedForms_eq_self (by decide) (by decide)
  have hsecond : storedForms [.metric (valueAt 6 "web"), .span backwardSpan] = [] :=
    storedForms_of_not_accepts (by decide)
  have hlive : live mixedHistory = [.metric (valueAt 5 "web")] := by
    rw [mixedHistory, live, Change.inserts, hfirst, live, Change.inserts, hsecond]
    rfl
  have hmetrics : liveMetrics mixedHistory = [valueAt 5 "web"] := by
    rw [liveMetrics, hlive]
    rfl
  have hkey : "host" ∈ ((ofHistory mixedHistory).labelValues "up").keys := by
    rw [(h.2.1 "up" "host").1, hmetrics]
    exact ⟨_, List.mem_singleton_self _, rfl, by decide⟩
  rw [← Dictionary.contains_iff] at hkey
  obtain ⟨values, hvalues⟩ := Option.isSome_iff_exists.1 hkey
  exact ⟨hmetrics, h.1, ⟨values, hvalues, (h.2.1 "up" "host").2 values hvalues⟩, h.2.2.2.2⟩

end Store

end Telemetry
