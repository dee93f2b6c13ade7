import Telemetry.Time.Instant

/-!
Tables of records, each under an identifier of its own.

Identifiers ascend in the order of insertion and are never given twice. One that is taken without a
row being inserted stays unused. That the identifiers of the rows ascend, and that the next one lies
above them all, is part of the type.
-/

set_option autoImplicit false

namespace Telemetry

open Time (Instant)

/-! ## Rows -/

/-- A record with its identifier and the instant at which it was inserted. -/
structure Stored (α : Type) where
  id : Nat
  createdAt : Instant
  record : α
  deriving Repr

/-- Applies a function to the record. -/
def Stored.map {α β : Type} (f : α → β) (r : Stored α) : Stored β :=
  ⟨r.id, r.createdAt, f r.record⟩

/-! ## Tables -/

/-- Rows in the order of their insertion. -/
structure Table (α : Type) where
  rows : List (Stored α)
  nextId : Nat
  ascending : rows.Pairwise fun a b => a.id < b.id
  below : ∀ r ∈ rows, r.id < nextId

namespace Table

variable {α : Type}

/-- No rows. Identifiers start at one. -/
def empty : Table α := ⟨[], 1, .nil, by simp⟩

instance : Inhabited (Table α) := ⟨empty⟩

/-- Inserts a record under the next identifier. -/
def insert (t : Table α) (now : Instant) (a : α) : Table α where
  rows := t.rows ++ [⟨t.nextId, now, a⟩]
  nextId := t.nextId + 1
  ascending := List.pairwise_append.2 ⟨t.ascending, List.pairwise_singleton _ _, fun r hr s hs => by
    rw [List.mem_singleton.1 hs]
    exact t.below r hr⟩
  below := fun r hr => by
    rcases List.mem_append.1 hr with hr | hr
    · exact Nat.lt_succ_of_lt (t.below r hr)
    · rw [List.mem_singleton.1 hr]
      exact Nat.lt_succ_self _

/-- Takes the next identifier without using it. -/
def skip (t : Table α) : Table α :=
  { t with nextId := t.nextId + 1, below := fun r hr => Nat.lt_succ_of_lt (t.below r hr) }

/-- Takes the identifiers below a given one, as far as they are not taken. -/
def reserve (t : Table α) (next : Nat) : Table α :=
  { t with
    nextId := max t.nextId next
    below := fun r hr => Nat.lt_of_lt_of_le (t.below r hr) (Nat.le_max_left _ _) }

/-- The rows whose records satisfy a condition. -/
def filter (t : Table α) (keep : α → Bool) : Table α where
  rows := t.rows.filter fun r => keep r.record
  nextId := t.nextId
  ascending := t.ascending.filter _
  below := fun r hr => t.below r (List.mem_filter.1 hr).1

/-- The number of rows whose records satisfy a condition. -/
def count (t : Table α) (p : α → Bool) : Nat := t.rows.countP fun r => p r.record

/-- The records, in the order of their insertion. -/
def records (t : Table α) : List α := t.rows.map (·.record)

/-- The number of rows. -/
def size (t : Table α) : Nat := t.rows.length

/-! ## Identifiers -/

/-- An identifier tells one row. -/
theorem eq_of_id_eq (t : Table α) {r r' : Stored α} (hr : r ∈ t.rows) (hr' : r' ∈ t.rows)
    (h : r.id = r'.id) : r = r' := by
  obtain ⟨i, hi, rfl⟩ := List.getElem_of_mem hr
  obtain ⟨j, hj, rfl⟩ := List.getElem_of_mem hr'
  have hlt := List.pairwise_iff_getElem.1 t.ascending
  rcases Nat.lt_trichotomy i j with hij | rfl | hji
  · exact absurd h (Nat.ne_of_lt (hlt i j hi hj hij))
  · rfl
  · exact absurd h.symm (Nat.ne_of_lt (hlt j i hj hi hji))

/-! ## Records after a change -/

@[simp] theorem records_empty : (empty : Table α).records = [] := rfl

@[simp] theorem records_insert (t : Table α) (now : Instant) (a : α) :
    (t.insert now a).records = t.records ++ [a] := by
  simp [records, insert]

@[simp] theorem records_reserve (t : Table α) (next : Nat) :
    (t.reserve next).records = t.records := rfl

@[simp] theorem records_skip (t : Table α) : t.skip.records = t.records := rfl

@[simp] theorem count_eq_countP_records (t : Table α) (p : α → Bool) :
    t.count p = t.records.countP p := by
  rw [count, records, List.countP_map]
  rfl

@[simp] theorem records_filter (t : Table α) (keep : α → Bool) :
    (t.filter keep).records = t.records.filter keep := by
  simp [records, filter, List.filter_map, Function.comp_def]

end Table

end Telemetry
