/-!
Finite maps from strings, kept in ascending order of their keys.

The order is part of the type, so two dictionaries with the same bindings are equal, and whatever
walks over one meets the keys in order. Strings are ordered by their code points, which is also the
order of their UTF-8 bytes.
-/

set_option autoImplicit false

namespace Telemetry

/-! ## The type -/

/-- Bindings with strictly ascending keys. -/
structure Dictionary (β : Type) where
  entries : List (String × β)
  ascending : entries.Pairwise fun a b => a.1 < b.1
  deriving DecidableEq

namespace Dictionary

variable {β : Type}

@[ext] theorem ext {d d' : Dictionary β} (h : d.entries = d'.entries) : d = d' := by
  cases d; cases d'; simp only at h; subst h; rfl

/-- No bindings. -/
def empty : Dictionary β := ⟨[], .nil⟩

instance : Inhabited (Dictionary β) := ⟨empty⟩

instance : EmptyCollection (Dictionary β) := ⟨empty⟩

instance [Repr β] : Repr (Dictionary β) := ⟨fun d n => reprPrec d.entries n⟩

/-- The keys, in order. -/
def keys (d : Dictionary β) : List String := d.entries.map (·.1)

/-- Whether there are no bindings. -/
def isEmpty (d : Dictionary β) : Bool := d.entries.isEmpty

/-- The value that a key is bound to. -/
def get? (d : Dictionary β) (key : String) : Option β := d.entries.lookup key

/-- Whether a key is bound. -/
def contains (d : Dictionary β) (key : String) : Bool := (d.get? key).isSome

/-! ## Insertion -/

/-- Puts a binding at its place, instead of an earlier one of the same key. -/
def insertEntry (key : String) (value : β) : List (String × β) → List (String × β)
  | [] => [(key, value)]
  | (k, v) :: rest =>
    if key < k then (key, value) :: (k, v) :: rest
    else if key = k then (key, value) :: rest
    else (k, v) :: insertEntry key value rest

theorem fst_mem_insertEntry {key : String} {value : β} {es : List (String × β)}
    {e : String × β} (h : e ∈ insertEntry key value es) : e = (key, value) ∨ e ∈ es := by
  induction es with
  | nil => simpa [insertEntry] using h
  | cons head rest ih =>
    obtain ⟨k, v⟩ := head
    simp only [insertEntry] at h
    split at h
    · simpa using h
    · split at h
      · rcases List.mem_cons.1 h with h | h
        · exact .inl h
        · exact .inr (List.mem_cons_of_mem _ h)
      · rcases List.mem_cons.1 h with h | h
        · exact .inr (h ▸ List.mem_cons_self)
        · exact (ih h).imp id (List.mem_cons_of_mem _)

theorem insertEntry_ascending {key : String} {value : β} {es : List (String × β)}
    (h : es.Pairwise fun a b => a.1 < b.1) :
    (insertEntry key value es).Pairwise fun a b => a.1 < b.1 := by
  induction es with
  | nil => simp [insertEntry]
  | cons head rest ih =>
    obtain ⟨k, v⟩ := head
    obtain ⟨hk, hrest⟩ := List.pairwise_cons.1 h
    simp only [insertEntry]
    split
    next hlt =>
      refine List.pairwise_cons.2 ⟨fun e he => ?_, h⟩
      rcases List.mem_cons.1 he with rfl | he
      · exact hlt
      · exact String.lt_trans hlt (hk e he)
    next hlt =>
      split
      next heq => exact List.pairwise_cons.2 ⟨fun e he => heq ▸ hk e he, hrest⟩
      next hne =>
        refine List.pairwise_cons.2 ⟨fun e he => ?_, ih hrest⟩
        rcases fst_mem_insertEntry he with rfl | he
        · show k < key
          grind
        · exact hk e he

/-- Binds a key, in place of an earlier binding of it. -/
def insert (d : Dictionary β) (key : String) (value : β) : Dictionary β :=
  ⟨insertEntry key value d.entries, insertEntry_ascending d.ascending⟩

/-- Binds a key unless it is bound. -/
def insertNew (d : Dictionary β) (key : String) (value : β) : Dictionary β :=
  if d.contains key then d else d.insert key value

/-- The bindings of a list, a later one in place of an earlier one of the same key. -/
def ofList (es : List (String × β)) : Dictionary β :=
  es.foldl (fun d e => d.insert e.1 e.2) empty

/-! ## Selection -/

/-- The bindings whose keys satisfy a condition. -/
def filterKeys (d : Dictionary β) (keep : String → Bool) : Dictionary β :=
  ⟨d.entries.filter fun e => keep e.1, d.ascending.filter _⟩

/-- The bindings of all keys but one. -/
def erase (d : Dictionary β) (key : String) : Dictionary β := d.filterKeys (· ≠ key)

/-- Whether each binding of the second dictionary is one of the first. -/
def includes [BEq β] (d constraints : Dictionary β) : Bool :=
  constraints.entries.all fun e => d.get? e.1 == some e.2

/-- Applies a function to each value. -/
def mapValues {γ : Type} (d : Dictionary β) (f : β → γ) : Dictionary γ :=
  ⟨d.entries.map fun e => (e.1, f e.2), List.pairwise_map.2 d.ascending⟩

/-! ## Collection -/

/-- Collects the members of a list under keys. Each key has its first member and the others, in the
order of the list. -/
def collect {α : Type} (key : α → String) (xs : List α) : Dictionary (α × List α) :=
  xs.foldl (fun d x =>
    d.insert (key x)
      (match d.get? (key x) with
        | none => (x, [])
        | some (first, others) => (first, others ++ [x]))) empty

/-! ## Look-up after a change -/

theorem lookup_insertEntry (key : String) (value : β) (es : List (String × β)) (k : String) :
    (insertEntry key value es).lookup k = if k = key then some value else es.lookup k := by
  induction es with
  | nil =>
    by_cases hk : k = key
    · simp [insertEntry, hk]
    · simp [insertEntry, List.lookup_cons, hk, beq_eq_false_iff_ne.2 hk]
  | cons head rest ih =>
    obtain ⟨k', v'⟩ := head
    simp only [insertEntry]
    split
    · by_cases hk : k = key
      · simp [hk]
      · simp [List.lookup_cons, hk, beq_eq_false_iff_ne.2 hk]
    · split
      next heq =>
        subst heq
        by_cases hk : k = key
        · simp [hk]
        · simp [List.lookup_cons, hk, beq_eq_false_iff_ne.2 hk]
      next hne =>
        by_cases hk : k = k'
        · subst hk
          have : ¬ k = key := fun h => hne h.symm
          simp [this]
        · simp only [List.lookup_cons, beq_eq_false_iff_ne.2 hk, ih]

@[simp] theorem get?_insert (d : Dictionary β) (key : String) (value : β) (k : String) :
    (d.insert key value).get? k = if k = key then some value else d.get? k :=
  lookup_insertEntry key value d.entries k

@[simp] theorem get?_empty (k : String) : (empty : Dictionary β).get? k = none := rfl

end Dictionary

end Telemetry
