import Telemetry.Proofs.Store.History

/-!
Insertion as a transaction: what it leaves in the tables, and that a failed one leaves nothing.

Here the tables are looked at with the identifiers of their rows. One record that is put into a
store becomes a row under the next identifier of its kind, and the rows of the other kinds are as
before (`rows_put`); so a list of records becomes a list of rows, in order (`Added`). Identifiers
that were taken stay taken, by every change, which is why those of new rows lie above all that there
have ever been. A transaction that is rolled back leaves the tables as they were, and whatever can
be read depends on them alone (`SameReads`).
-/

set_option autoImplicit false

namespace Telemetry

open Time (Instant)

@[simp] theorem Record.kind_atStoredTime (r : Record) : r.atStoredTime.kind = r.kind := by
  cases r <;> rfl

namespace Store

/-! ## Rows under their identifiers

The rows that an insertion adds stand behind the others, with identifiers above all earlier ones.
-/

/-- The next identifier of a kind. -/
def nextId (s : Store) : RecordKind → Nat
  | .metrics => s.metrics.nextId
  | .traces => s.spans.nextId
  | .logs => s.logs.nextId

/-- Each row has an identifier below the next one. -/
theorem id_lt_nextId {s : Store} {kind : RecordKind} {row : Stored Record}
    (h : row ∈ s.rows kind) : row.id < s.nextId kind := by
  cases kind <;>
  · obtain ⟨r, hr, rfl⟩ := List.mem_map.1 h
    exact Table.below _ r hr

/-- A record that is put into a store is the last row of its kind. -/
theorem rows_put (now : Instant) (s : Store) (r : Record) (kind : RecordKind) :
    (s.put now r).rows kind =
      s.rows kind ++ if r.kind = kind then [⟨s.nextId kind, now, r⟩] else [] := by
  cases r <;> cases kind <;>
    simp [put, putMetric, rows, nextId, Table.insert, Record.kind, Stored.map]

/-- It takes one identifier of its kind. -/
theorem nextId_put (now : Instant) (s : Store) (r : Record) (kind : RecordKind) :
    (s.put now r).nextId kind = s.nextId kind + if r.kind = kind then 1 else 0 := by
  cases r <;> cases kind <;> rfl

/-- Whether rows hold some records of a kind, in order, as they were inserted at an instant, under
ascending identifiers from a given one on. -/
structure Added (now : Instant) (kind : RecordKind) (least : Nat) (rs : List Record)
    (rows : List (Stored Record)) : Prop where
  records : rows.map (·.record) = rs.filter fun r => r.kind = kind
  createdAt : ∀ row ∈ rows, row.createdAt = now
  ascending : rows.Pairwise fun a b => a.id < b.id
  least_le : ∀ row ∈ rows, least ≤ row.id

/-- Records put into a store are added behind its rows, with ascending identifiers from the next
one on. -/
theorem exists_added_foldl_put (now : Instant) (kind : RecordKind) (s : Store) (rs : List Record) :
    ∃ added, (rs.foldl (put now) s).rows kind = s.rows kind ++ added ∧
      Added now kind (s.nextId kind) rs added := by
  -- on the records, for any store: only those of this kind take a row and an identifier
  induction rs generalizing s with
  | nil => exact ⟨[], (List.append_nil _).symm, rfl, nofun, .nil, nofun⟩
  | cons r rs ih =>
    obtain ⟨added, hrows, hadded⟩ := ih (s.put now r)
    rw [rows_put, List.append_assoc] at hrows
    rw [nextId_put] at hadded
    refine ⟨_, hrows, ?_⟩
    by_cases hkind : r.kind = kind
    · rw [if_pos hkind] at hadded ⊢
      exact {
        records := by
          rw [List.singleton_append, List.map_cons, hadded.records,
            List.filter_cons_of_pos (by simpa using hkind)]
        createdAt := List.forall_mem_cons.2 ⟨rfl, hadded.createdAt⟩
        ascending := List.pairwise_cons.2 ⟨hadded.least_le, hadded.ascending⟩
        least_le := List.forall_mem_cons.2
          ⟨Nat.le_refl _, fun row hrow => Nat.le_of_succ_le (hadded.least_le row hrow)⟩ }
    · rw [if_neg hkind] at hadded ⊢
      exact { hadded with
        records := by
          rw [List.nil_append, hadded.records, List.filter_cons_of_neg (by simpa using hkind)] }

/-! ## Identifiers that were taken

The next identifier never goes back, not even where an insertion is undone. So an identifier is
greater than those of any earlier moment of the history. -/

/-- Putting records never lowers the next identifier. -/
theorem nextId_le_foldl_put (now : Instant) (kind : RecordKind) (s : Store) (rs : List Record) :
    s.nextId kind ≤ (rs.foldl (put now) s).nextId kind := by
  induction rs generalizing s with
  | nil => exact Nat.le_refl _
  | cons r rs ih =>
    refine Nat.le_trans ?_ (ih _)
    rw [nextId_put]
    exact Nat.le_add_right _ _

/-- Taking back does not either. -/
theorem nextId_le_rollback (s written : Store) (kind : RecordKind) :
    s.nextId kind ≤ (s.rollback written).nextId kind := by
  cases kind <;> exact Nat.le_max_left _ _

/-- No change gives an identifier back. -/
theorem nextId_le_after (s : Store) (c : Change) (kind : RecordKind) :
    s.nextId kind ≤ (s.after c).nextId kind := by
  cases c with
  | insertion now rs =>
    obtain ⟨admitted, -, h⟩ | ⟨e, written, -, h⟩ := s.insertAll_cases now rs
    · rw [after, h]
      exact nextId_le_foldl_put now kind s admitted
    · rw [after, h]
      exact s.nextId_le_rollback written kind
  | removal cutoff =>
    rw [after]
    split
    next kept purged h =>
      obtain ⟨n, -, h⟩ := Fallible.bind_eq_ok h
      cases h
      cases kind <;> exact Nat.le_refl _
    next => exact Nat.le_refl _

/-- Nor does any change, so no identifier is given twice. -/
theorem nextId_le_foldl_after (s : Store) (changes : List Change) (kind : RecordKind) :
    s.nextId kind ≤ (changes.foldl after s).nextId kind := by
  induction changes generalizing s with
  | nil => exact Nat.le_refl _
  | cons c changes ih => exact Nat.le_trans (s.nextId_le_after c kind) (ih _)

/-- Every identifier that there was at some point of a history lies below the next one. -/
theorem id_lt_nextId_ofHistory {earlier changes : List Change} (h : earlier <+: changes)
    {kind : RecordKind} {row : Stored Record} (hrow : row ∈ (ofHistory earlier).rows kind) :
    row.id < (ofHistory changes).nextId kind := by
  obtain ⟨later, rfl⟩ := h
  refine Nat.lt_of_lt_of_le (id_lt_nextId hrow) ?_
  rw [ofHistory, ofHistory, List.foldl_append]
  exact nextId_le_foldl_after _ later kind

/-! ## What can be read

Two stores that differ only in the identifiers they give next cannot be told apart by reading. -/

/-- Whether all that can be read from two stores is the same. -/
structure SameReads (s s' : Store) : Prop where
  rows : ∀ kind, s'.rows kind = s.rows kind
  newestFirst : ∀ kind, s'.newestFirst kind = s.newestFirst kind
  list : ∀ kind page, s'.list kind page = s.list kind page
  total : ∀ kind, s'.total kind = s.total kind
  counts : s'.counts = s.counts
  fetch : ∀ cancelled f, s'.fetch cancelled f = s.fetch cancelled f
  execute : ∀ cancelled text window,
    s'.execute cancelled text window = s.execute cancelled text window
  labelValues : ∀ metric, s'.labelValues metric = s.labelValues metric
  metricNames : s'.metricNames = s.metricNames
  serviceNames : s'.serviceNames = s.serviceNames

/-- A transaction that is rolled back cannot be noticed. -/
theorem sameReads_rollback (s written : Store) : s.SameReads (s.rollback written) where
  rows kind := by cases kind <;> rfl
  newestFirst kind := by cases kind <;> rfl
  list kind page := by cases kind <;> rfl
  total kind := by cases kind <;> rfl
  counts := rfl
  fetch _ _ := rfl
  execute _ _ _ := rfl
  labelValues _ := rfl
  metricNames := rfl
  serviceNames := rfl

/-- What is listed are the rows. -/
theorem newestFirst_perm (s : Store) (kind : RecordKind) :
    (s.newestFirst kind).Perm (s.rows kind) :=
  List.mergeSort_perm _ _

/-! ## Insertion -/

/-- What acceptance means for each record: a time that fits a word, and for spans a duration and a
parent as the table wants them. -/
theorem accepts_iff {rs : List Record} :
    Accepts rs ↔ ∀ r ∈ rs, Text.Integer.fitsSigned64 r.time.toNanos = true ∧
      ∀ x, r = .span x → 0 ≤ x.duration ∧ x.parentSpanId ≠ some "" := by
  refine forall₂_congr fun r _ => Record.admissible_iff.trans (and_congr_right fun _ => ?_)
  cases r with
  | span x => exact ⟨fun h _ hx => Record.span.inj hx ▸ h, fun h => h x rfl⟩
  | metric | log => exact iff_of_true trivial nofun

/-- What a successful insertion adds to the rows of a kind. -/
theorem exists_added_insertAll {now : Instant} {s : Store} {rs : List Record}
    (h : (s.insertAll now rs).2 = .ok ()) (kind : RecordKind) :
    ∃ added, (s.insertAll now rs).1.rows kind = s.rows kind ++ added ∧
      Added now kind (s.nextId kind) (rs.map Record.atStoredTime) added := by
  obtain ⟨admitted, hmap, hinsert⟩ | ⟨e, written, -, hinsert⟩ := s.insertAll_cases now rs
  · have hadmitted : admitted = rs.map Record.atStoredTime := by
      rw [← storedForms_eq_map ((s.insertAll_ok_iff now rs).1 h), storedForms, hmap]
      rfl
    rw [hinsert, ← hadmitted]
    exact exists_added_foldl_put now kind s admitted
  · rw [hinsert] at h
    cases h

/-- Each row that was added holds the stored form of its record, which is the record itself but
for a leap second. -/
theorem Added.forall₂ {now : Instant} {kind : RecordKind} {least : Nat} {rs : List Record}
    {added : List (Stored Record)} (h : Added now kind least (rs.map Record.atStoredTime) added) :
    List.Forall₂ (fun r row => row.record = r.atStoredTime ∧
      (r.time.isLeap = false → row.record = r)) (rs.filter fun r => r.kind = kind) added := by
  have hrecords : (rs.filter fun r => r.kind = kind).map Record.atStoredTime =
      added.map (·.record) := by
    rw [h.records, List.filter_map]
    simp only [Function.comp_def, Record.kind_atStoredTime]
  rw [← List.forall₂_eq_eq_eq, List.forall₂_map_left_iff, List.forall₂_map_right_iff] at hrecords
  exact hrecords.imp fun r row hrow =>
    ⟨hrow.symm, fun hleap => hrow.symm.trans (Record.atStoredTime_of_not_leap hleap)⟩

/-- **Insertion is faithful and atomic.** After any history, a list of records is inserted exactly
if the time of each fits a word, and each span has a duration that is not negative and a parent that
is absent or not empty. If it is, the rows of each kind, and the listing of it, gain exactly the
records of the kind, in their order and as they are except for leap seconds, under ascending
identifiers above all that there have ever been. If it is not, all that can be read is as before. -/
theorem insertAll_transaction (changes : List Change) (now : Instant) (rs : List Record) :
    let s := ofHistory changes
    let s' := (s.insertAll now rs).1
    let outcome := (s.insertAll now rs).2
    (outcome = .ok () ↔ ∀ r ∈ rs, Text.Integer.fitsSigned64 r.time.toNanos = true ∧
      ∀ x, r = .span x → 0 ≤ x.duration ∧ x.parentSpanId ≠ some "") ∧
    (outcome = .ok () → ∀ kind, ∃ added,
      s'.rows kind = s.rows kind ++ added ∧
      (s'.newestFirst kind).Perm (s.newestFirst kind ++ added) ∧
      List.Forall₂ (fun r row => row.record = r.atStoredTime ∧
        (r.time.isLeap = false → row.record = r)) (rs.filter fun r => r.kind = kind) added ∧
      (∀ row ∈ added, row.createdAt = now) ∧
      added.Pairwise (fun a b => a.id < b.id) ∧
      ∀ earlier, earlier <+: changes → ∀ old ∈ (ofHistory earlier).rows kind, ∀ new ∈ added,
        old.id < new.id) ∧
    (outcome ≠ .ok () → s.SameReads s') := by
  intro s s' outcome
  refine ⟨(s.insertAll_ok_iff now rs).trans accepts_iff, fun h kind => ?_, fun h => ?_⟩
  -- the rows that were added stand behind those from before, with greater identifiers
  · obtain ⟨added, hrows, hadded⟩ := exists_added_insertAll h kind
    refine ⟨added, hrows, ?_, hadded.forall₂, hadded.createdAt, hadded.ascending,
      fun earlier hearlier old hold new hnew => ?_⟩
    · refine (s'.newestFirst_perm kind).trans ?_
      rw [hrows]
      exact (s.newestFirst_perm kind).symm.append_right added
    · exact Nat.lt_of_lt_of_le (id_lt_nextId_ofHistory hearlier hold) (hadded.least_le new hnew)
  -- only a refused insertion is left, and its rows are rolled back
  · obtain ⟨admitted, -, hinsert⟩ | ⟨e, written, -, hinsert⟩ := s.insertAll_cases now rs
    · exact absurd (congrArg Prod.snd hinsert) h
    · have hs' : s' = s.rollback written := congrArg Prod.fst hinsert
      rw [hs']
      exact s.sameReads_rollback written

/-- Behind a history, a value is inserted, and with a span that is refused it is not. -/
theorem insertAll_transaction_of_mixedHistory :
    (∃ added,
      ((ofHistory mixedHistory).insertAll .epoch [.metric (valueAt 6 "web")]).1.rows .metrics =
        (ofHistory mixedHistory).rows .metrics ++ added ∧
      List.Forall₂ (fun r row => row.record = r.atStoredTime ∧
        (r.time.isLeap = false → row.record = r)) [.metric (valueAt 6 "web")] added) ∧
    (ofHistory mixedHistory).SameReads ((ofHistory mixedHistory).insertAll .epoch
      [.metric (valueAt 6 "web"), .span backwardSpan]).1 := by
  have hone := insertAll_transaction mixedHistory .epoch [.metric (valueAt 6 "web")]
  have htwo := insertAll_transaction mixedHistory .epoch
    [.metric (valueAt 6 "web"), .span backwardSpan]
  have haccepts : Accepts [.metric (valueAt 6 "web")] := by decide
  obtain ⟨added, hrows, -, hrecords, -⟩ := hone.2.1 (hone.1.2 (accepts_iff.1 haccepts)) .metrics
  refine ⟨⟨added, hrows, hrecords⟩, htwo.2.2 fun hok => ?_⟩
  have hduration := ((htwo.1.1 hok _ (List.mem_cons_of_mem _ List.mem_cons_self)).2 _ rfl).1
  revert hduration
  decide

end Store

end Telemetry
