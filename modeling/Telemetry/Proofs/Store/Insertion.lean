import Telemetry.Proofs.Fallible
import Telemetry.Proofs.Store.Columns
import Telemetry.Store.Basic

/-!
What insertion does to a store, seen through its contents.

The contents of a store are its records of each kind in the order of their insertion, without
identifiers and without the instants of insertion. Insertion of a list adds either the stored forms
of all of its records or nothing, and it adds them exactly if each record is admitted on its own.
-/

set_option autoImplicit false

namespace Telemetry

open Time (Instant)

namespace Record

/-- The metric that a record is. -/
def metric? : Record → Option Metric
  | .metric m => some m
  | _ => none

/-- The span that a record is. -/
def span? : Record → Option Span
  | .span s => some s
  | _ => none

/-- The log record that a record is. -/
def log? : Record → Option LogRecord
  | .log l => some l
  | _ => none

/-- Whether a record may be stored. -/
def Admissible (r : Record) : Prop := ∃ stored, r.admit = .ok stored

/-- A record is admissible if its time fits a word and it meets the constraints of its table. -/
theorem admissible_iff {r : Record} : r.Admissible ↔
    Text.Integer.fitsSigned64 r.time.toNanos = true ∧ r.MeetsConstraints := by
  simp only [Admissible, admit_eq_ok_iff, exists_and_left, exists_eq', and_true]

instance (r : Record) : Decidable r.Admissible := decidable_of_iff' _ admissible_iff

end Record

namespace Store

/-! ## Contents -/

/-- The records of each kind, in the order of insertion. -/
@[ext] structure Contents where
  metrics : List Metric
  spans : List Span
  logs : List LogRecord

/-- The contents with further records behind those of their kind. -/
def Contents.append (c : Contents) (rs : List Record) : Contents where
  metrics := c.metrics ++ rs.filterMap Record.metric?
  spans := c.spans ++ rs.filterMap Record.span?
  logs := c.logs ++ rs.filterMap Record.log?

@[simp] theorem Contents.append_nil (c : Contents) : c.append [] = c := by
  ext1 <;> simp [append]

theorem Contents.append_append (c : Contents) (rs rs' : List Record) :
    (c.append rs).append rs' = c.append (rs ++ rs') := by
  ext1 <;> simp [append]

/-- The contents of a store. -/
def contents (s : Store) : Contents := ⟨s.metrics.records, s.spans.records, s.logs.records⟩

theorem contents_put (now : Instant) (s : Store) (r : Record) :
    (s.put now r).contents = s.contents.append [r] := by
  cases r <;> simp [put, putMetric, contents, Contents.append, Record.metric?, Record.span?,
    Record.log?]

theorem contents_foldl_put (now : Instant) (s : Store) (rs : List Record) :
    (rs.foldl (put now) s).contents = s.contents.append rs := by
  induction rs generalizing s with
  | nil => simp
  | cons r rs ih =>
    rw [List.foldl_cons, ih, contents_put, Contents.append_append, List.singleton_append]

/-! ## Insertion -/

/-- What is stored of a list of records: the stored forms of all of them, or nothing. -/
def storedForms (rs : List Record) : List Record := ((rs.mapM Record.admit).toOption).getD []

/-- Whether each record of a list may be stored. -/
def Accepts (rs : List Record) : Prop := ∀ r ∈ rs, r.Admissible

instance (rs : List Record) : Decidable (Accepts rs) :=
  inferInstanceAs (Decidable (∀ r ∈ rs, r.Admissible))

/-- Records are written as far as they are admitted; if all are, what is written are their stored
forms. -/
theorem write_cases (now : Instant) (s : Store) (rs : List Record) :
    (∃ admitted, rs.mapM Record.admit = .ok admitted ∧
      s.write now rs = (admitted.foldl (put now) s, .ok ())) ∨
    ∃ e written, rs.mapM Record.admit = .error e ∧ s.write now rs = (written, .error e) := by
  induction rs generalizing s with
  | nil => exact .inl ⟨[], rfl, rfl⟩
  | cons r rs ih =>
    rw [write]
    cases hr : r.admit with
    | error e => exact .inr ⟨e, _, Fallible.mapM_cons_error hr, rfl⟩
    | ok stored =>
      obtain ⟨admitted, hrs, hwrite⟩ | ⟨e, written, hrs, hwrite⟩ := ih (s.put now stored)
      · exact .inl ⟨stored :: admitted, Fallible.mapM_cons_ok hr hrs, hwrite⟩
      · exact .inr ⟨e, written, Fallible.mapM_cons_error_tail hr hrs, hwrite⟩

/-- Insertion puts the stored forms of all records into the store, or takes back whatever it has
written. -/
theorem insertAll_cases (now : Instant) (s : Store) (rs : List Record) :
    (∃ admitted, rs.mapM Record.admit = .ok admitted ∧
      s.insertAll now rs = (admitted.foldl (put now) s, .ok ())) ∨
    ∃ e written, rs.mapM Record.admit = .error e ∧
      s.insertAll now rs = (s.rollback written, .error e) := by
  rw [insertAll]
  obtain ⟨admitted, hmap, hwrite⟩ | ⟨e, written, hmap, hwrite⟩ := s.write_cases now rs
  · exact .inl ⟨admitted, hmap, by rw [hwrite]⟩
  · exact .inr ⟨e, written, hmap, by rw [hwrite]⟩

/-- Insertion succeeds exactly if each record is admitted. -/
theorem insertAll_ok_iff (now : Instant) (s : Store) (rs : List Record) :
    (s.insertAll now rs).2 = .ok () ↔ Accepts rs := by
  rw [Accepts]
  show _ ↔ ∀ r ∈ rs, ∃ stored, r.admit = .ok stored
  rw [← Fallible.exists_mapM_eq_ok_iff]
  obtain ⟨admitted, hmap, hinsert⟩ | ⟨e, written, hmap, hinsert⟩ := s.insertAll_cases now rs
  · rw [hinsert]
    exact iff_of_true rfl ⟨admitted, hmap⟩
  · rw [hinsert, hmap]
    exact iff_of_false nofun nofun

/-- Insertion adds the stored forms of a list that is accepted, and nothing otherwise. -/
theorem contents_insertAll (now : Instant) (s : Store) (rs : List Record) :
    (s.insertAll now rs).1.contents = s.contents.append (storedForms rs) := by
  rw [storedForms]
  obtain ⟨admitted, hmap, hinsert⟩ | ⟨e, written, hmap, hinsert⟩ := s.insertAll_cases now rs
  · rw [hinsert, hmap]
    exact contents_foldl_put now s admitted
  · rw [hinsert, hmap]
    exact s.contents.append_nil.symm

/-- If all are accepted, each record has a stored form. -/
theorem storedForms_of_accepts {rs : List Record} (h : Accepts rs) :
    List.Forall₂ (fun r stored => r.admit = .ok stored) rs (storedForms rs) := by
  obtain ⟨admitted, hadmitted⟩ := Fallible.exists_mapM_eq_ok_iff.2 h
  rw [storedForms, hadmitted]
  exact Fallible.mapM_eq_ok_iff.1 hadmitted

/-- The stored form of a record is the record, but for a leap second. -/
theorem storedForms_eq_map {rs : List Record} (h : Accepts rs) :
    storedForms rs = rs.map Record.atStoredTime := by
  have hforms := storedForms_of_accepts h
  generalize storedForms rs = stored at hforms
  clear h
  induction hforms with
  | nil => rfl
  | cons hr _ ih => rw [List.map_cons, ih, (Record.admit_eq_ok_iff.1 hr).2.2]

/-- Without leap seconds the stored forms are the records. -/
theorem storedForms_eq_self {rs : List Record} (h : Accepts rs)
    (hleap : ∀ r ∈ rs, r.time.isLeap = false) : storedForms rs = rs := by
  rw [storedForms_eq_map h, List.map_congr_left fun r hr =>
    Record.atStoredTime_of_not_leap (hleap r hr), List.map_id']

/-- If any is refused, there are no stored forms. -/
theorem storedForms_of_not_accepts {rs : List Record} (h : ¬ Accepts rs) : storedForms rs = [] := by
  rw [storedForms]
  cases hmap : rs.mapM Record.admit with
  | ok admitted => exact absurd (Fallible.exists_mapM_eq_ok_iff.1 ⟨admitted, hmap⟩) h
  | error e => rfl

/-! ## Insertions one after another -/

/-- Inserts lists of records one after another, each at an instant of its own. -/
def insertEach (s : Store) (writes : List (Instant × List Record)) : Store :=
  writes.foldl (fun s w => (s.insertAll w.1 w.2).1) s

/-- Writes add the stored forms of each, whole writes at a time. -/
theorem contents_insertEach (s : Store) (writes : List (Instant × List Record)) :
    (s.insertEach writes).contents =
      s.contents.append (writes.flatMap fun w => storedForms w.2) := by
  -- on the writes, for any store: a write that is refused adds none
  induction writes generalizing s with
  | nil => simp [insertEach]
  | cons w writes ih =>
    rw [insertEach, List.foldl_cons, ← insertEach, ih, contents_insertAll,
      Contents.append_append, List.flatMap_cons]

end Store

end Telemetry
