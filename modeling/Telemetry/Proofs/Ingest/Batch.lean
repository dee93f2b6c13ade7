import Telemetry.Ingest.Pipeline
import Telemetry.Proofs.Store.Insertion

/-!
What the writing of a batch does to the contents of a store.

A batch is first written in one insertion, and unit by unit where that is refused. Both ways lead to
the same contents and the same counts: the units that are accepted are stored in their order, the
others are counted. The first way is taken exactly if all units are accepted, because a list of
records is accepted exactly if each of its records is, however they are divided into units.
-/

set_option autoImplicit false

namespace Telemetry

open Time (Instant)

namespace Store

/-! ## Lists of lists -/

/-- Units are accepted together if each of them is. -/
theorem accepts_flatten {units : List (List Record)} :
    Accepts units.flatten ↔ ∀ unit ∈ units, Accepts unit := by
  simp only [Accepts, List.mem_flatten]
  constructor
  · intro h unit hunit r hr
    exact h r ⟨unit, hunit, hr⟩
  · rintro h r ⟨unit, hunit, hr⟩
    exact h unit hunit r hr

/-- Of units that are all accepted it makes no difference whether they are inserted together. -/
theorem storedForms_flatten {units : List (List Record)} (h : ∀ unit ∈ units, Accepts unit) :
    storedForms units.flatten = units.flatMap storedForms := by
  rw [storedForms_eq_map (accepts_flatten.2 h), List.map_flatten, List.flatMap]
  refine congrArg List.flatten (List.map_congr_left fun unit hunit => ?_)
  exact (storedForms_eq_map (h unit hunit)).symm

end Store

namespace Ingest

open Otlp (WriteUnit)
open Store (Accepts storedForms)

/-! ## Units one by one -/

/-- The number of units that are dropped. -/
def dropped (units : Submission) : Nat := units.countP fun unit => !decide (Accepts unit)

/-- What is stored of units: the stored forms of those that are accepted. -/
def keptRecords (units : Submission) : List Record := units.flatMap storedForms

theorem dropped_cons (unit : WriteUnit) (units : Submission) :
    dropped (unit :: units) = if Accepts unit then dropped units else dropped units + 1 := by
  rw [dropped, List.countP_cons, ← dropped]
  by_cases h : Accepts unit <;> simp [h]

theorem dropped_eq_zero {units : Submission} (h : ∀ unit ∈ units, Accepts unit) :
    dropped units = 0 := by
  rw [dropped, List.countP_eq_zero]
  intro unit hunit
  simp [h unit hunit]

/-- Only units that are accepted leave something in a store. -/
theorem keptRecords_eq_filter (units : Submission) :
    keptRecords units = (units.filter fun unit => Accepts unit).flatMap storedForms := by
  induction units with
  | nil => rfl
  | cons unit units ih =>
    rw [keptRecords, List.flatMap_cons, ← keptRecords, ih]
    by_cases h : Accepts unit
    · rw [List.filter_cons_of_pos (by simpa using h), List.flatMap_cons]
    · rw [List.filter_cons_of_neg (by simpa using h), Store.storedForms_of_not_accepts h,
        List.nil_append]

/-- Writing units one by one drops those that are not accepted. -/
theorem writeUnits_counts (now : Instant) (s : Store) (units : Submission) :
    (writeUnits now s units).2 = dropped units := by
  -- on the units, for any store: a unit that is refused leaves the store as it was
  induction units generalizing s with
  | nil => rfl
  | cons unit units ih =>
    have hok := s.insertAll_ok_iff now unit
    rw [dropped_cons, writeUnits]
    simp only
    split
    next h =>
      rw [if_pos (hok.1 h)]
      exact ih _
    next e h =>
      have hnot : ¬ Accepts unit := fun haccepts => by
        rw [hok.2 haccepts] at h
        cases h
      rw [if_neg hnot]
      exact congrArg (· + 1) (ih _)

/-- Writing units one by one stores what is kept of them. -/
theorem contents_writeUnits (now : Instant) (s : Store) (units : Submission) :
    (writeUnits now s units).1.contents = s.contents.append (keptRecords units) := by
  induction units generalizing s with
  | nil => exact s.contents.append_nil.symm
  | cons unit units ih =>
    -- the store goes on from the insertion of the unit, whether or not it was refused
    have hcontents : (writeUnits now s (unit :: units)).1 =
        (writeUnits now (s.insertAll now unit).1 units).1 := by
      rw [writeUnits]
      simp only
      split <;> rfl
    rw [hcontents, ih, Store.contents_insertAll, Store.Contents.append_append, keptRecords,
      keptRecords, List.flatMap_cons]

/-! ## Batches

A batch is written in one insertion, or unit by unit where that is refused. Both leave the same
contents, so the ways need not be told apart any further. -/

/-- Writing submissions one by one counts for each of them what it drops. -/
theorem writeEach_counts (now : Instant) (s : Store) (batch : List Submission) :
    (writeEach now s batch).2 = batch.map dropped := by
  induction batch generalizing s with
  | nil => rfl
  | cons units batch ih =>
    rw [writeEach, List.map_cons, ← writeUnits_counts now s units]
    exact congrArg _ (ih _)

/-- Writing submissions one by one stores what is kept of all. -/
theorem contents_writeEach (now : Instant) (s : Store) (batch : List Submission) :
    (writeEach now s batch).1.contents = s.contents.append (keptRecords batch.flatten) := by
  induction batch generalizing s with
  | nil => exact s.contents.append_nil.symm
  | cons units batch ih =>
    have hstore : (writeEach now s (units :: batch)).1 =
        (writeEach now (writeUnits now s units).1 batch).1 := rfl
    rw [hstore, ih, contents_writeUnits, Store.Contents.append_append, List.flatten_cons,
      keptRecords, keptRecords, keptRecords, List.flatMap_append]

/-- The batch is written in one insertion if all of its units are accepted. -/
theorem writeBatch_of_accepts {now : Instant} {s : Store} {batch : List Submission}
    (h : Accepts batch.flatten.flatten) :
    writeBatch now s batch =
      ((s.insertAll now batch.flatten.flatten).1, batch.map fun _ => 0) := by
  have hok := (s.insertAll_ok_iff now batch.flatten.flatten).2 h
  rw [writeBatch]
  split
  next hwritten => rw [hwritten]
  next hwritten =>
    rw [hwritten] at hok
    cases hok

/-- Otherwise nothing of that insertion is left in the store, and the units are inserted one by
one. -/
theorem writeBatch_of_not_accepts (now : Instant) (s : Store) {batch : List Submission}
    (h : ¬ Accepts batch.flatten.flatten) :
    ∃ s', s'.contents = s.contents ∧ writeBatch now s batch = writeEach now s' batch := by
  refine ⟨(s.insertAll now batch.flatten.flatten).1, ?_, ?_⟩
  · rw [Store.contents_insertAll, Store.storedForms_of_not_accepts h]
    exact s.contents.append_nil
  · have hok := (not_congr (s.insertAll_ok_iff now batch.flatten.flatten)).2 h
    rw [writeBatch]
    split
    next hwritten =>
      rw [hwritten] at hok
      exact absurd rfl hok
    next hwritten => rw [hwritten]

/-- Each submission of a batch is told how many of its own units were dropped. -/
theorem writeBatch_counts (now : Instant) (s : Store) (batch : List Submission) :
    (writeBatch now s batch).2 = batch.map dropped := by
  by_cases h : Accepts batch.flatten.flatten
  · rw [writeBatch_of_accepts h]
    -- nothing is dropped, and so it is told
    refine List.map_congr_left fun units hunits => (dropped_eq_zero fun unit hunit => ?_).symm
    exact Store.accepts_flatten.1 h unit (List.mem_flatten.2 ⟨units, hunits, hunit⟩)
  · obtain ⟨s', -, heq⟩ := writeBatch_of_not_accepts now s h
    rw [heq, writeEach_counts]

/-- The batch leaves in the store what its units leave there one by one. -/
theorem contents_writeBatch (now : Instant) (s : Store) (batch : List Submission) :
    (writeBatch now s batch).1.contents = s.contents.append (keptRecords batch.flatten) := by
  by_cases h : Accepts batch.flatten.flatten
  · rw [writeBatch_of_accepts h, Store.contents_insertAll,
      Store.storedForms_flatten (Store.accepts_flatten.1 h), keptRecords]
  · obtain ⟨s', hcontents, heq⟩ := writeBatch_of_not_accepts now s h
    rw [heq, contents_writeEach, hcontents]

end Ingest

end Telemetry
