import Telemetry.Proofs.Store.Retention
import Telemetry.Proofs.Store.Windows

/-!
Which records a removal takes away, and what it commutes with.

A store compares nanoseconds. A record in it has no leap second for its time, so this is a
comparison of instants, with the cutoff in the form in which it would be stored (`toNanos_le_iff`),
which is another one only for a cutoff in a leap second. All else is about filters. The tables of a
store are filtered one by one, the label rows in step with the metrics, and to filter twice is to
filter by both conditions (`keepFrom_keepFrom`): so removals combine to that with the later cutoff,
and one that is repeated finds nothing. Records that are not older pass the filter, so it does not
matter whether they come before or after it.
-/

set_option autoImplicit false

namespace Telemetry

open Time (Instant)

/-! ## Cutoffs -/

/-- The instant that is stored for an instant, by its nanoseconds. -/
def Time.Instant.stored (t : Instant) : Instant := ofNanos t.toNanos

@[simp] theorem Time.Instant.toNanos_stored (t : Instant) : t.stored.toNanos = t.toNanos :=
  toNanos_ofNanos _

@[simp] theorem Time.Instant.isLeap_stored (t : Instant) : t.stored.isLeap = false :=
  isLeap_ofNanos _

/-! ## Filtered tables -/

theorem Table.filter_filter {α : Type} (t : Table α) (p q : α → Bool) :
    (t.filter p).filter q = t.filter fun a => p a && q a := by
  unfold Table.filter
  simp only [List.filter_filter, Bool.and_comm]

namespace Store

/-! ## Removals one after another

The label rows that go with one removal and then another are those that go with the later cutoff
at once. It is the tables of labels for which this is not a matter of two filters in a row. -/

/-- Whether a label row goes with the metrics that have expired is decided by the time of the metric
to which it refers. -/
theorem contains_expired_iff {s : Store} {cutoff : Int} {l : LabelRow} {r : Stored Metric}
    (hr : r ∈ s.metrics.rows) (hl : l ∈ LabelRow.ofStored r) :
    (s.expiredMetrics cutoff).contains l.metric = true ↔ r.record.time.toNanos < cutoff := by
  rw [List.contains_iff_mem, (LabelRow.mem_ofStored.1 hl).1, mem_expiredMetrics hr]

/-- The labels after two removals are those after the later one of the two instants. -/
theorem labels_keepFrom_keepFrom (s : Store) (a b : Int) :
    ((s.keepFrom a).keepFrom b).labels = (s.keepFrom (max a b)).labels := by
  show List.filter _ (List.filter _ _) = List.filter _ _
  rw [List.filter_filter]
  refine List.filter_congr fun l hl => ?_
  obtain ⟨r, hr, hl⟩ := (s.labelled l).1 hl
  rw [Bool.eq_iff_iff, Bool.and_eq_true, Bool.not_eq_true', Bool.not_eq_true', Bool.not_eq_true',
    ← Bool.not_eq_true, ← Bool.not_eq_true, ← Bool.not_eq_true, contains_expired_iff hr hl,
    contains_expired_iff hr hl]
  by_cases hexpired : r.record.time.toNanos < a
  · simp [hexpired]
  · -- the metric is still there for the second removal
    have hkept : r ∈ (s.keepFrom a).metrics.rows :=
      List.mem_filter.2 ⟨hr, decide_eq_true (Int.not_lt.1 hexpired)⟩
    rw [contains_expired_iff hkept hl]
    omega

/-- Two removals leave what the one with the later cutoff leaves. -/
theorem keepFrom_keepFrom (s : Store) (a b : Int) :
    (s.keepFrom a).keepFrom b = s.keepFrom (max a b) := by
  have hboth (t : Instant) :
      (decide (a ≤ t.toNanos) && decide (b ≤ t.toNanos)) = decide (max a b ≤ t.toNanos) := by
    rw [← Bool.decide_and]
    exact decide_eq_decide.2 Int.max_le.symm
  have hlabels := s.labels_keepFrom_keepFrom a b
  unfold keepFrom at *
  simp only [Table.filter_filter, hboth] at hlabels ⊢
  simp only [hlabels]

/-! ## Reports

What a removal reports is counted before the rows are taken. Together with the rows that are kept
it makes up the total, for each kind of record. -/

/-- The number of records of a kind that were removed. -/
def Purged.ofKind (p : Purged) : RecordKind → Nat
  | .metrics => p.metrics
  | .traces => p.spans
  | .logs => p.logs

/-- Numbers of removed records are equal if they are for each kind. -/
theorem Purged.ext_ofKind {p q : Purged} (h : ∀ kind, p.ofKind kind = q.ofKind kind) : p = q := by
  have hmetrics := h .metrics
  have hspans := h .traces
  have hlogs := h .logs
  simp only [ofKind] at hmetrics hspans hlogs
  rcases p with ⟨pm, ps, pl⟩
  rcases q with ⟨qm, qs, ql⟩
  simp_all

/-- What stays and what is removed are all records there were. -/
theorem total_keepFrom (s : Store) (n : Int) (kind : RecordKind) :
    (s.keepFrom n).total kind +
      (s.contents.ofKind kind).countP (fun r => decide (r.time.toNanos < n)) = s.total kind := by
  have hkept : (s.keepFrom n).total kind =
      (s.rows kind).countP fun r => decide (n ≤ r.record.time.toNanos) := by
    rw [total, rows_keepFrom, List.countP_eq_length_filter]
  have hexpired : (s.contents.ofKind kind).countP (fun r => decide (r.time.toNanos < n)) =
      (s.rows kind).countP fun r => decide ¬ decide (n ≤ r.record.time.toNanos) = true := by
    rw [← map_record_rows, List.countP_map]
    refine List.countP_congr fun r _ => ?_
    simp
  rw [hkept, hexpired, total]
  exact (List.length_eq_countP_add_countP _).symm

/-- What is reported are the records of each kind that are older. -/
theorem ofKind_expired (s : Store) (n : Int) (kind : RecordKind) :
    (s.expired n).ofKind kind =
      (s.contents.ofKind kind).countP fun r => decide (r.time.toNanos < n) := by
  cases kind <;>
  · simp only [Purged.ofKind, expired, Contents.ofKind, contents, Table.count_eq_countP_records,
      List.countP_map]
    rfl

/-! ## What is left after a history

A removal leaves of the live records those that are not too old, and so does every read: what is
listed, counted or fetched afterwards are these. -/

/-- Whether a record expires at a cutoff is a comparison of instants. -/
theorem toNanos_le_iff (cutoff : Instant) {t : Instant} (ht : t.isLeap = false) :
    cutoff.toNanos ≤ t.toNanos ↔ cutoff.stored ≤ t := by
  rw [Instant.le_iff_toNanos_le cutoff.isLeap_stored ht, cutoff.toNanos_stored]

/-- What a removal at a cutoff leaves of a store, and what it reports. -/
structure Expires (cutoff : Instant) (s kept : Store) (purged : Purged) : Prop where
  /-- The rows that are left are those that are not older, as they were and in their order. -/
  rows : ∀ kind, kept.rows kind = (s.rows kind).filter fun r => decide (cutoff ≤ r.record.time)
  /-- What is reported is the number of rows that are gone. -/
  removed : ∀ kind, kept.total kind + purged.ofKind kind = s.total kind
  labelKeys : ∀ metric k, k ∈ (kept.labelValues metric).keys ↔
    ∃ m ∈ s.metrics.records, cutoff ≤ m.time ∧ m.name = metric ∧ k ∈ m.seriesLabels.keys
  labelValues : ∀ metric k values, (kept.labelValues metric).get? k = some values →
    Enumerates values fun v => ∃ m ∈ s.metrics.records,
      cutoff ≤ m.time ∧ m.name = metric ∧ m.seriesLabels.get? k = some v
  fetched : ∀ cancelled f, kept.fetch cancelled f =
    (s.fetch cancelled f).map (List.filter fun row => decide (cutoff ≤ row.time))

section History

variable (changes : List Change) (cutoff : Instant)

/-- After a history, the rows that stay are those from the stored cutoff on. -/
theorem rows_keepFrom_ofHistory (kind : RecordKind) :
    ((ofHistory changes).keepFrom cutoff.toNanos).rows kind =
      ((ofHistory changes).rows kind).filter fun r => decide (cutoff.stored ≤ r.record.time) := by
  rw [rows_keepFrom]
  refine List.filter_congr fun r hr => ?_
  exact decide_eq_decide.2 (toNanos_le_iff cutoff (isLeap_of_mem_rows hr))

theorem metrics_keepFrom_ofHistory :
    ((ofHistory changes).keepFrom cutoff.toNanos).metrics.records =
      (ofHistory changes).metrics.records.filter fun m => decide (cutoff.stored ≤ m.time) := by
  rw [keepFrom, Table.records_filter]
  refine List.filter_congr fun m hm => ?_
  exact decide_eq_decide.2 (toNanos_le_iff cutoff (isLeap_of_mem_metrics hm))

theorem selected_keepFrom_ofHistory (f : Query.Fetch) :
    ((ofHistory changes).keepFrom cutoff.toNanos).selected f =
      ((ofHistory changes).selected f).filter fun m => decide (cutoff.stored ≤ m.time) := by
  rw [selected, metrics_keepFrom_ofHistory, List.filter_comm, selected]

/-- A removal takes the rows that are older out of what is fetched, and nothing else. -/
theorem fetch_keepFrom_ofHistory (cancelled : Bool) (f : Query.Fetch) :
    ((ofHistory changes).keepFrom cutoff.toNanos).fetch cancelled f =
      ((ofHistory changes).fetch cancelled f).map
        (List.filter fun row => decide (cutoff.stored ≤ row.time)) := by
  cases cancelled with
  | true => rfl
  | false =>
    obtain ⟨hstart, -⟩ | ⟨-, e, hstart⟩ := f.start.toWord_cases
    · obtain ⟨hstop, -⟩ | ⟨-, e, hstop⟩ := f.stop.toWord_cases
      · rw [fetch_eq_ok hstart hstop, fetch_eq_ok hstart hstop, selected_keepFrom_ofHistory,
          Except.map, List.filter_map]
        refine congrArg (fun ms : List Metric => Except.ok (ms.map rowOf)) ?_
        exact Sorting.mergeSort_filter (fun m : Metric => m.time.toNanos) _ _
      · simp only [fetch, Instant.toWord_eq_ok hstart, hstop]
        rfl
    · simp only [fetch, hstart]
      rfl

/-- After any history, the rows from the cutoff on are what a removal leaves, in every read. -/
theorem expires_ofHistory :
    Expires cutoff.stored (ofHistory changes) ((ofHistory changes).keepFrom cutoff.toNanos)
      ((ofHistory changes).expired cutoff.toNanos) := by
  have hrecords := metrics_keepFrom_ofHistory changes cutoff
  have hmem (m : Metric) : m ∈ ((ofHistory changes).keepFrom cutoff.toNanos).metrics.records ↔
      m ∈ (ofHistory changes).metrics.records ∧ cutoff.stored ≤ m.time := by
    rw [hrecords, List.mem_filter, decide_eq_true_eq]
  refine {
    rows := rows_keepFrom_ofHistory changes cutoff
    removed := fun kind => ?_
    labelKeys := fun metric k => ?_
    labelValues := fun metric k values h => ?_
    fetched := fetch_keepFrom_ofHistory changes cutoff }
  · rw [ofKind_expired]
    exact total_keepFrom _ _ kind
  · rw [mem_keys_labelValues]
    simp only [hmem, and_assoc]
  · refine (enumerates_of_labelValues h).congr fun v => ?_
    simp only [hmem, and_assoc]

end History

/-! ## Removal and insertion

A list of records that are not too old may be inserted before or after a removal. The contents are
the same in the end, though not the identifiers. -/

/-- The outcome of an insertion depends on the records alone, not on what is in the store. -/
theorem insertAll_snd (s : Store) (now : Instant) (rs : List Record) :
    (s.insertAll now rs).2 = (rs.mapM Record.admit).map fun _ => () := by
  obtain ⟨admitted, hmap, h⟩ | ⟨e, written, hmap, h⟩ := s.insertAll_cases now rs
  · rw [h, hmap]
    rfl
  · rw [h, hmap]
    rfl

/-- The contents that stay are those of the rows that do. -/
theorem contents_keepFrom (s : Store) (n : Int) :
    (s.keepFrom n).contents = s.contents.filter fun r => decide (n ≤ r.time.toNanos) := by
  simp only [contents, keepFrom, Table.records_filter]
  rfl

section Insertion

variable {rs : List Record} {cutoff : Instant}
  (hrs : ∀ r ∈ rs, cutoff.toNanos ≤ r.time.toNanos)

include hrs

/-- Records that are not older than a cutoff are not older in the form in which they are stored. -/
theorem toNanos_le_of_mem_storedForms {r : Record} (hr : r ∈ storedForms rs) :
    cutoff.toNanos ≤ r.time.toNanos := by
  by_cases haccepts : Accepts rs
  · rw [storedForms_eq_map haccepts] at hr
    obtain ⟨given, hgiven, rfl⟩ := List.mem_map.1 hr
    rw [Record.time_atStoredTime, Instant.toNanos_ofNanos]
    exact hrs given hgiven
  · rw [storedForms_of_not_accepts haccepts] at hr
    exact absurd hr List.not_mem_nil

/-- It does not matter whether they are inserted before a removal or after it. -/
theorem contents_insertAll_keepFrom (s : Store) (now now' : Instant) :
    ((s.insertAll now rs).1.keepFrom cutoff.toNanos).contents =
      ((s.keepFrom cutoff.toNanos).insertAll now' rs).1.contents := by
  have hkept : (storedForms rs).filter (fun r => decide (cutoff.toNanos ≤ r.time.toNanos)) =
      storedForms rs :=
    List.filter_eq_self.2 fun r hr => decide_eq_true (toNanos_le_of_mem_storedForms hrs hr)
  rw [contents_keepFrom, contents_insertAll, Contents.filter_append, hkept, contents_insertAll,
    contents_keepFrom]

/-- The removal reports the same number of records. -/
theorem countP_insertAll (s : Store) (now : Instant) (kind : RecordKind) :
    ((s.insertAll now rs).1.contents.ofKind kind).countP
        (fun r => decide (r.time.toNanos < cutoff.toNanos)) =
      (s.contents.ofKind kind).countP fun r => decide (r.time.toNanos < cutoff.toNanos) := by
  rw [contents_insertAll, Contents.ofKind_append, List.countP_append, Nat.add_eq_left,
    List.countP_eq_zero]
  intro r hr
  rw [decide_eq_true_eq, Int.not_lt]
  exact toNanos_le_of_mem_storedForms hrs (List.mem_filter.1 hr).1

end Insertion

/-! ## Removals -/

/-- **A removal takes away exactly the expired records.** After any history, a removal whose cutoff
can be given in nanoseconds succeeds. It leaves the rows that are not older than the cutoff, and
what is read through labels or fetched is about these. It does nothing more when it is repeated;
followed by another removal it leaves what one removal at the later of the two cutoffs leaves; and
records that are not older may as well be inserted after it as before, with the same outcome. -/
theorem removal_exact (changes : List Change) {cutoff : Instant}
    (hcutoff : Text.Integer.fitsSigned64 cutoff.toNanos = true) :
    let s := ofHistory changes
    ∃ kept purged, s.purgeBefore cutoff = .ok (kept, purged) ∧
      Expires cutoff.stored s kept purged ∧
      kept.purgeBefore cutoff = .ok (kept, {}) ∧
      (∀ cutoff', Text.Integer.fitsSigned64 cutoff'.toNanos = true →
        ∃ kept' purged' purged'', kept.purgeBefore cutoff' = .ok (kept', purged') ∧
          s.purgeBefore (.latest cutoff.stored cutoff'.stored) = .ok (kept', purged'')) ∧
      ∀ now now' rs, (∀ r ∈ rs, cutoff.toNanos ≤ r.time.toNanos) →
        ∃ kept', (s.insertAll now rs).1.purgeBefore cutoff = .ok (kept', purged) ∧
          kept'.contents = (kept.insertAll now' rs).1.contents ∧
          (s.insertAll now rs).2 = (kept.insertAll now' rs).2 := by
  intro s
  have hok := fun s' : Store => s'.purgeBefore_eq_ok hcutoff
  refine ⟨_, _, hok s, expires_ofHistory changes cutoff, ?_,
    fun cutoff' hcutoff' => ?_, fun now now' rs hrs => ?_⟩
  -- nothing expired is left, so the second removal takes no rows
  · have hzero : (s.keepFrom cutoff.toNanos).expired cutoff.toNanos = {} := by
      refine Purged.ext_ofKind fun kind => ?_
      have htotal := (s.keepFrom cutoff.toNanos).total_keepFrom cutoff.toNanos kind
      rw [keepFrom_keepFrom, Int.max_self, ← ofKind_expired, Nat.add_eq_left] at htotal
      rw [htotal]
      cases kind <;> rfl
    rw [hok, keepFrom_keepFrom, Int.max_self, hzero]
  -- two removals keep what the one at the later cutoff keeps
  · have hlatest : (Instant.latest cutoff.stored cutoff'.stored).toNanos =
        max cutoff.toNanos cutoff'.toNanos := by
      rw [Instant.toNanos_latest cutoff.isLeap_stored cutoff'.isLeap_stored, cutoff.toNanos_stored,
        cutoff'.toNanos_stored]
    have hfits : Text.Integer.fitsSigned64
        (Instant.latest cutoff.stored cutoff'.stored).toNanos = true := by
      rw [hlatest]
      rcases Int.le_total cutoff.toNanos cutoff'.toNanos with h | h
      · rwa [Int.max_eq_right h]
      · rwa [Int.max_eq_left h]
    have hlater := s.purgeBefore_eq_ok hfits
    rw [hlatest, ← keepFrom_keepFrom] at hlater
    exact ⟨_, _, _, (s.keepFrom cutoff.toNanos).purgeBefore_eq_ok hcutoff', hlater⟩
  -- what is inserted is not old enough, so the rows that are taken are the same
  · have hsame : (s.insertAll now rs).1.expired cutoff.toNanos = s.expired cutoff.toNanos := by
      refine Purged.ext_ofKind fun kind => ?_
      rw [ofKind_expired, ofKind_expired, countP_insertAll hrs]
    refine ⟨_, hsame ▸ hok _, contents_insertAll_keepFrom hrs s now now', ?_⟩
    rw [insertAll_snd, insertAll_snd]

/-- Two values of a metric and a log record between them. -/
def agedHistory : List Change :=
  [.insertion .epoch [.metric (valueAt 1 "api"), .metric (valueAt 5 "web"), .log (logAt 4)]]

/-- A removal at the time of the later value, which stays; one at an earlier time after it; and a
log record of the time of the cutoff, which may be inserted before or afterwards. -/
theorem removal_exact_of_agedHistory :
    Text.Integer.fitsSigned64 (logAt 5).time.toNanos = true ∧
    Text.Integer.fitsSigned64 (logAt 3).time.toNanos = true ∧
    (∀ r ∈ [Record.log (logAt 5)], (logAt 5).time.toNanos ≤ r.time.toNanos) ∧
    ∃ kept purged, (ofHistory agedHistory).purgeBefore (logAt 5).time = .ok (kept, purged) ∧
      (kept.rows .metrics).map (·.record) = [.metric (valueAt 5 "web")] ∧
      (kept.rows .logs).map (·.record) = [] ∧
      kept.purgeBefore (logAt 5).time = .ok (kept, {}) ∧
      (∃ kept' purged' purged'', kept.purgeBefore (logAt 3).time = .ok (kept', purged') ∧
        (ofHistory agedHistory).purgeBefore
          (.latest (logAt 5).time.stored (logAt 3).time.stored) = .ok (kept', purged'')) ∧
      ∃ kept', ((ofHistory agedHistory).insertAll .epoch [.log (logAt 5)]).1.purgeBefore
          (logAt 5).time = .ok (kept', purged) ∧
        kept'.contents = (kept.insertAll .epoch [.log (logAt 5)]).1.contents := by
  have hfive : Text.Integer.fitsSigned64 (logAt 5).time.toNanos = true := by decide
  have hthree : Text.Integer.fitsSigned64 (logAt 3).time.toNanos = true := by decide
  have hrs : ∀ r ∈ [Record.log (logAt 5)], (logAt 5).time.toNanos ≤ r.time.toNanos := by decide
  obtain ⟨kept, purged, hok, hexpires, hagain, hlater, hinsert⟩ := removal_exact agedHistory hfive
  have hforms : storedForms [.metric (valueAt 1 "api"), .metric (valueAt 5 "web"), .log (logAt 4)] =
      [.metric (valueAt 1 "api"), .metric (valueAt 5 "web"), .log (logAt 4)] :=
    storedForms_eq_self (by decide) (by decide)
  have hrows (kind : RecordKind) : (kept.rows kind).map (·.record) =
      ((live agedHistory).filter (·.kind = kind)).filter
        fun r => decide ((logAt 5).time.stored ≤ r.time) := by
    rw [hexpires.rows, ← records_ofHistory, List.filter_map]
    rfl
  rw [agedHistory, live, Change.inserts, hforms] at hrows
  obtain ⟨kept', hinserted, hcontents, -⟩ := hinsert .epoch .epoch _ hrs
  exact ⟨hfive, hthree, hrs, kept, purged, hok, hrows .metrics, hrows .logs, hagain,
    hlater _ hthree, kept', hinserted, hcontents⟩

end Store

end Telemetry
