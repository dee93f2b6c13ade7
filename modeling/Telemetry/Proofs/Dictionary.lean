import Mathlib.Data.List.Basic
import Mathlib.Data.List.Induction
import Telemetry.Dictionary

/-!
The theory of dictionaries: two of them are equal when they answer every look-up alike, and what
`collect` gathers under a key is the sublist of the members that have this key, in their order.

The second part is what every grouping of the library rests on. A group is a list of members, and
the groups of a list are also known by the positions of their members, so that a statement about
"the same group" can tell equal members at two places apart.
-/

set_option autoImplicit false

namespace Telemetry.Dictionary

variable {α β γ : Type}

/-! ## Look-ups and entries

A dictionary is known by its look-ups, since its keys ascend. Equations between dictionaries are
proved so, whatever the order in which entries were inserted. -/

/-- A key is looked up in the first entry, then in the others. -/
theorem lookup_cons_if (e : String × β) (es : List (String × β)) (k : String) :
    (e :: es).lookup k = if k = e.1 then some e.2 else es.lookup k := by
  by_cases hk : k = e.1
  · rw [if_pos hk, List.lookup_cons, beq_iff_eq.2 hk]
  · rw [if_neg hk, List.lookup_cons, beq_eq_false_iff_ne.2 hk]

/-- Keys ascend, so an entry is found under its own key. -/
theorem lookup_eq_some_iff {es : List (String × β)} (h : es.Pairwise fun a b => a.1 < b.1)
    {k : String} {v : β} : es.lookup k = some v ↔ (k, v) ∈ es := by
  induction es with
  | nil => simp
  | cons head rest ih =>
    obtain ⟨k', v'⟩ := head
    obtain ⟨hk, hrest⟩ := List.pairwise_cons.1 h
    rw [lookup_cons_if, List.mem_cons]
    by_cases heq : k = k'
    · subst heq
      -- no later entry has the key, since it would have to lie above itself
      have hnot : (k, v) ∉ rest := fun hmem => String.lt_irrefl k (hk _ hmem)
      simp [hnot, eq_comm]
    · simp [heq, ih hrest]

theorem get?_eq_some_iff {d : Dictionary β} {k : String} {v : β} :
    d.get? k = some v ↔ (k, v) ∈ d.entries :=
  lookup_eq_some_iff d.ascending

/-- A key is contained if it is one of the keys. -/
theorem contains_iff {d : Dictionary β} {k : String} : d.contains k = true ↔ k ∈ d.keys := by
  rw [contains, Option.isSome_iff_exists, keys, List.mem_map]
  constructor
  · rintro ⟨v, hv⟩
    exact ⟨(k, v), get?_eq_some_iff.1 hv, rfl⟩
  · rintro ⟨⟨k', v⟩, hmem, rfl⟩
    exact ⟨v, get?_eq_some_iff.2 hmem⟩

theorem ascending_keys (d : Dictionary β) : d.keys.Pairwise (· < ·) :=
  List.pairwise_map.2 d.ascending

/-- No key is there twice. -/
theorem nodup_keys (d : Dictionary β) : d.keys.Nodup := by
  refine d.ascending_keys.imp ?_
  intro a b hlt heq
  exact String.lt_irrefl b (heq ▸ hlt)

theorem nodup_entries (d : Dictionary β) : d.entries.Nodup :=
  List.Pairwise.of_map (·.1) (fun _ _ hne heq => hne (congrArg Prod.fst heq)) d.nodup_keys

/-- Ascending lists with the same members are the same list. -/
theorem ext_mem {d d' : Dictionary β} (h : ∀ e, e ∈ d.entries ↔ e ∈ d'.entries) : d = d' := by
  apply Dictionary.ext
  have hperm : d.entries.Perm d'.entries :=
    (List.perm_ext_iff_of_nodup d.nodup_entries d'.nodup_entries).2 h
  refine hperm.eq_of_pairwise ?_ d.ascending d'.ascending
  intro a b _ _ hab hba
  exact absurd (String.lt_trans hab hba) (String.lt_irrefl _)

/-- Dictionaries that answer every look-up alike are equal. -/
theorem ext_get? {d d' : Dictionary β} (h : ∀ k, d.get? k = d'.get? k) : d = d' := by
  refine ext_mem fun e => ?_
  rw [← get?_eq_some_iff (d := d), ← get?_eq_some_iff (d := d'), h]

/-- A key of mapped values has the mapped value. -/
@[simp] theorem get?_mapValues (d : Dictionary β) (f : β → γ) (k : String) :
    (d.mapValues f).get? k = (d.get? k).map f := by
  simp only [get?, mapValues]
  induction d.entries with
  | nil => rfl
  | cons head rest ih =>
    rw [List.map_cons, lookup_cons_if, lookup_cons_if, ih]
    split <;> rfl

/-- Inserting adds a key, or replaces its value. -/
theorem mem_keys_insert {d : Dictionary β} {k k' : String} {v : β} :
    k' ∈ (d.insert k v).keys ↔ k' = k ∨ k' ∈ d.keys := by
  rw [← contains_iff, contains, get?_insert, ← contains_iff, contains]
  by_cases h : k' = k
  · simp [h]
  · simp [h]

/-- What is there after inserting was there, or was inserted. -/
theorem mem_entries_insert {d : Dictionary β} {k : String} {v : β} {e : String × β}
    (h : e ∈ (d.insert k v).entries) : e ∈ d.entries ∨ e = (k, v) := by
  obtain ⟨k', v'⟩ := e
  rw [← get?_eq_some_iff, get?_insert] at h
  by_cases hk : k' = k
  · rw [if_pos hk, Option.some.injEq] at h
    exact .inr (by rw [hk, h])
  · rw [if_neg hk, get?_eq_some_iff] at h
    exact .inl h

/-- Inserting the entries of a dictionary one after another builds it up. -/
theorem get?_foldl_insert {es : List (String × β)} (h : es.Pairwise fun a b => a.1 < b.1)
    (d : Dictionary β) (k : String) :
    (es.foldl (fun d e => d.insert e.1 e.2) d).get? k = (es.lookup k).or (d.get? k) := by
  induction es generalizing d with
  | nil => rfl
  | cons head rest ih =>
    obtain ⟨hk, hrest⟩ := List.pairwise_cons.1 h
    rw [List.foldl_cons, ih hrest, get?_insert, lookup_cons_if]
    by_cases heq : k = head.1
    -- later entries have other keys, so none of them overrides the first one
    · have hnone : rest.lookup k = none := by
        rw [List.lookup_eq_none_iff]
        intro e he
        rw [heq, bne_iff_ne]
        intro hke
        exact String.lt_irrefl head.1 (hke ▸ hk e he)
      rw [if_pos heq, if_pos heq, hnone, Option.none_or, Option.some_or]
    · rw [if_neg heq, if_neg heq]

/-- A dictionary is made of its entries. -/
theorem ofList_entries (d : Dictionary β) : ofList d.entries = d := by
  refine ext_get? fun k => ?_
  rw [ofList, get?_foldl_insert d.ascending, get?_empty, Option.or_none, get?]

/-- Bindings of different keys are inserted in either order. -/
theorem insert_comm (d : Dictionary β) {k k' : String} (h : k ≠ k') (v v' : β) :
    (d.insert k v).insert k' v' = (d.insert k' v').insert k v := by
  refine ext_get? fun key => ?_
  rw [get?_insert, get?_insert, get?_insert, get?_insert]
  by_cases hk : key = k
  · rw [if_neg (hk ▸ h), if_pos hk, if_pos hk]
  · rw [if_neg hk, if_neg hk]

/-- The order in which the entries of a dictionary are inserted does not matter. -/
theorem ofList_of_perm {es : List (String × β)} {d : Dictionary β} (h : es.Perm d.entries) :
    ofList es = d := by
  rw [← ofList_entries d, ofList, ofList]
  refine h.foldl_eq' (fun e he e' he' d' => ?_) empty
  by_cases heq : e.1 = e'.1
  -- a key has one entry only
  · have hget := get?_eq_some_iff.2 (h.mem_iff.1 he)
    rw [heq, get?_eq_some_iff.2 (h.mem_iff.1 he'), Option.some.injEq] at hget
    rw [Prod.ext heq hget.symm]
  · exact insert_comm d' heq _ _

/-- Inserting bindings one after another binds their keys and no others. -/
theorem contains_foldl_insert (es : List (String × β)) (d : Dictionary β) (k : String) :
    (es.foldl (fun d e => d.insert e.1 e.2) d).contains k = true ↔
      k ∈ es.map (·.1) ∨ d.contains k = true := by
  induction es generalizing d with
  | nil => simp
  | cons head rest ih =>
    rw [List.foldl_cons, ih, contains, get?_insert, List.map_cons, List.mem_cons]
    by_cases hk : k = head.1
    · simp [hk]
    · simp [hk, contains]

theorem mem_keys_ofList {es : List (String × β)} {k : String} :
    k ∈ (ofList es).keys ↔ k ∈ es.map (·.1) := by
  rw [← contains_iff, ofList, contains_foldl_insert]
  simp [contains]

/-! ## Without a key -/

/-- Only keys that are kept have a value. -/
theorem get?_filterKeys (d : Dictionary β) (keep : String → Bool) (k : String) :
    (d.filterKeys keep).get? k = if keep k then d.get? k else none := by
  refine Option.ext fun v => ?_
  have hmem : (k, v) ∈ (d.filterKeys keep).entries ↔ (k, v) ∈ d.entries ∧ keep k = true :=
    List.mem_filter
  rw [get?_eq_some_iff, hmem]
  split
  next hk => rw [get?_eq_some_iff, and_iff_left hk]
  next hk => simp [hk]

/-- An erased key has no value; the others keep theirs. -/
theorem get?_erase (d : Dictionary β) (key k : String) :
    (d.erase key).get? k = if k = key then none else d.get? k := by
  rw [erase, get?_filterKeys]
  by_cases hk : k = key
  · simp [hk]
  · simp [hk]

/-- A binding that is removed might as well have been another one. -/
@[simp] theorem erase_insert (d : Dictionary β) (key : String) (v : β) :
    (d.insert key v).erase key = d.erase key := by
  refine ext_get? fun k => ?_
  rw [get?_erase, get?_erase, get?_insert]
  split <;> rfl

/-- Erasing changes nothing exactly if the key is not there. -/
theorem erase_eq_self_iff {d : Dictionary β} {key : String} :
    d.erase key = d ↔ d.contains key = false := by
  rw [contains, Option.isSome_eq_false_iff, Option.isNone_iff_eq_none]
  constructor
  · intro h
    rw [← h, get?_erase, if_pos rfl]
  · intro hnone
    refine ext_get? fun k => ?_
    rw [get?_erase]
    split
    next hk => rw [hk, hnone]
    next => rfl

/-- A binding does not tell whether there was another one of its key before. -/
theorem insert_eq_insert_iff {d d' : Dictionary β} {key : String} {v v' : β} :
    d.insert key v = d'.insert key v' ↔ v = v' ∧ d.erase key = d'.erase key := by
  constructor
  · intro h
    have hvalue := congrArg (fun d => d.get? key) h
    have hrest := congrArg (fun d => d.erase key) h
    simp only [get?_insert, if_true, Option.some.injEq, erase_insert] at hvalue hrest
    exact ⟨hvalue, hrest⟩
  · rintro ⟨rfl, hrest⟩
    refine ext_get? fun k => ?_
    have hk := congrArg (fun d => d.get? k) hrest
    simp only [get?_erase] at hk
    rw [get?_insert, get?_insert]
    split at hk
    next heq => rw [if_pos heq, if_pos heq]
    next hne => rw [if_neg hne, if_neg hne, hk]

/-! ## Groups

Grouping collects under each key the values that have it, in their order. All groups together are
a permutation of the values. -/

/-- The members that have a key, the first of them apart. -/
def members? (key : α → String) (xs : List α) (k : String) : Option (α × List α) :=
  match xs.filter fun x => key x = k with
  | [] => none
  | first :: others => some (first, others)

/-- The members of a key are those that have it, in their order. -/
theorem members?_eq_some {key : α → String} {xs : List α} {k : String} {first : α}
    {others : List α} (h : members? key xs k = some (first, others)) :
    first :: others = xs.filter fun x => key x = k := by
  rw [members?] at h
  split at h
  · cases h
  next hfilter =>
    cases h
    exact hfilter.symm

/-- A key has members if something has it. -/
theorem isSome_members? {key : α → String} {xs : List α} {k : String} :
    (members? key xs k).isSome = true ↔ ∃ x ∈ xs, key x = k := by
  rw [members?]
  split
  next hfilter => simpa using hfilter
  next first others hfilter =>
    have hmem : first ∈ xs.filter fun x => key x = k := hfilter ▸ List.mem_cons_self
    rw [List.mem_filter, decide_eq_true_eq] at hmem
    exact ⟨fun _ => ⟨first, hmem⟩, fun _ => rfl⟩

/-- `collect` binds each key to the members that have it. -/
theorem get?_collect (key : α → String) (xs : List α) (k : String) :
    (collect key xs).get? k = members? key xs k := by
  -- the members are added from the left, so the list grows at its right end
  induction xs using List.reverseRecOn generalizing k with
  | nil => rfl
  | append_singleton xs x ih =>
    rw [collect, List.foldl_append, ← collect]
    simp only [List.foldl_cons, List.foldl_nil, get?_insert, ih, members?, List.filter_append]
    by_cases hk : k = key x
    · subst hk
      cases xs.filter fun y => key y = key x <;> simp
    · have hk' : ¬ key x = k := fun h => hk h.symm
      simp [hk, hk']

/-- The groups of a list by a key, in the order of the keys. -/
def groups (key : α → String) (xs : List α) : List (List α) :=
  (collect key xs).entries.map fun e => e.2.1 :: e.2.2

/-- A group has a key, and holds the members that have this key. -/
theorem mem_groups {key : α → String} {xs g : List α} :
    g ∈ groups key xs ↔ g ≠ [] ∧ ∃ k, g = xs.filter fun x => key x = k := by
  rw [groups, List.mem_map]
  constructor
  · rintro ⟨⟨k, first, others⟩, hmem, rfl⟩
    refine ⟨List.cons_ne_nil _ _, k, ?_⟩
    rw [← get?_eq_some_iff, get?_collect, members?] at hmem
    split at hmem
    · contradiction
    next hf =>
      cases hmem
      exact hf.symm
  · rintro ⟨hne, k, rfl⟩
    obtain ⟨first, others, hf⟩ := List.exists_cons_of_ne_nil hne
    refine ⟨(k, first, others), ?_, by simp only [hf]⟩
    rw [← get?_eq_some_iff, get?_collect, members?, hf]

/-- The keys under which something is collected are those of the members. -/
theorem mem_keys_collect {key : α → String} {xs : List α} {k : String} :
    k ∈ (collect key xs).keys ↔ ∃ x ∈ xs, key x = k := by
  rw [← contains_iff, contains, get?_collect, isSome_members?]

/-- The groups are those of the keys, and the keys ascend. -/
theorem groups_eq_map (key : α → String) (xs : List α) :
    groups key xs = (collect key xs).keys.map fun k => xs.filter fun x => key x = k := by
  rw [groups, keys, List.map_map]
  apply List.map_congr_left
  rintro ⟨k, first, others⟩ he
  rw [← get?_eq_some_iff, get?_collect] at he
  exact members?_eq_some he

/-- Members gathered under all of their keys are all there, each once. -/
theorem flatMap_filter_perm {key : α → String} {ks : List String} (hnodup : ks.Nodup)
    {xs : List α} (hall : ∀ x ∈ xs, key x ∈ ks) :
    (ks.flatMap fun k => xs.filter fun x => key x = k).Perm xs := by
  induction ks generalizing xs with
  | nil =>
    have hnil : xs = [] := List.eq_nil_iff_forall_not_mem.2 fun x hx => nomatch hall x hx
    rw [hnil]
    rfl
  | cons k ks ih =>
    obtain ⟨hk, hnodup⟩ := List.nodup_cons.1 hnodup
    rw [List.flatMap_cons]
    -- what is left for the other keys are the members that do not have the first one
    have hrest : (ks.flatMap fun k' => xs.filter fun x => key x = k') =
        ks.flatMap fun k' => (xs.filter fun x => !decide (key x = k)).filter fun x =>
          key x = k' := by
      apply List.flatMap_congr
      intro k' hk'
      rw [List.filter_filter]
      apply List.filter_congr
      intro x _
      by_cases hx : key x = k'
      · have hne : key x ≠ k := fun h => hk (h ▸ hx ▸ hk')
        simp [hx, hx ▸ hne]
      · simp [hx]
    have hothers : ∀ x ∈ xs.filter fun x => !decide (key x = k), key x ∈ ks := by
      intro x hx
      rw [List.mem_filter, Bool.not_eq_true', decide_eq_false_iff_not] at hx
      exact (List.mem_cons.1 (hall x hx.1)).resolve_left hx.2
    have hperm := ih hnodup hothers
    rw [hrest]
    exact (hperm.append_left _).trans (List.filter_append_perm _ xs)

/-- **Grouping loses no member and makes none up**: the groups together are the list, in another
order. -/
theorem flatten_groups_perm (key : α → String) (xs : List α) :
    (groups key xs).flatten.Perm xs := by
  rw [groups_eq_map, ← List.flatMap_def]
  exact flatMap_filter_perm (nodup_keys _) fun x hx => mem_keys_collect.2 ⟨x, hx, rfl⟩

/-- Collecting does not look at the members, only at their keys. -/
theorem collect_map (key : β → String) (f : α → β) (xs : List α) :
    collect key (xs.map f) =
      (collect (fun x => key (f x)) xs).mapValues fun g => (f g.1, g.2.map f) := by
  refine ext_get? fun k => ?_
  rw [get?_mapValues, get?_collect, get?_collect, members?, members?, List.filter_map]
  have hcomp : ((fun y => decide (key y = k)) ∘ f) = fun x => decide (key (f x) = k) := rfl
  rw [hcomp]
  -- both sides are the members of the key, mapped before or after the first is set apart
  cases xs.filter fun x => decide (key (f x) = k) <;> rfl

theorem groups_map (key : β → String) (f : α → β) (xs : List α) :
    groups key (xs.map f) = (groups (fun x => key (f x)) xs).map (List.map f) := by
  rw [groups, groups, collect_map, mapValues, List.map_map, List.map_map]
  rfl

/-! ## Groups by position

Two values may be equal and still stand in different places. Where it matters who is with whom,
positions are grouped instead. -/

/-- The positions of the members of each group. -/
def groupPositions (key : α → String) (xs : List α) : List (List Nat) :=
  (groups (fun p => key p.1) xs.zipIdx).map (List.map (·.2))

/-- The members of a list at some positions. -/
def membersAt (xs : List α) (positions : List Nat) : List α := positions.filterMap fun i => xs[i]?

/-- The groups hold the members at their positions. -/
theorem groups_eq_membersAt (key : α → String) (xs : List α) :
    groups key xs = (groupPositions key xs).map (membersAt xs) := by
  have hfst : xs = xs.zipIdx.map Prod.fst := (List.zipIdx_map_fst 0 xs).symm
  -- the members are grouped together with their positions, which are then forgotten
  conv_lhs => rw [hfst, groups_map]
  rw [groupPositions, List.map_map]
  refine List.map_congr_left fun g hg => ?_
  obtain ⟨-, k, rfl⟩ := mem_groups.1 hg
  rw [Function.comp_apply, membersAt, List.filterMap_map, ← List.filterMap_eq_map]
  refine List.filterMap_congr fun p hp => ?_
  have hmem : p ∈ xs.zipIdx := (List.mem_filter.1 hp).1
  exact (List.mem_zipIdx_iff_getElem?.1 hmem).symm

/-- Two positions are in one group exactly if the members there have the same key. -/
theorem mem_groupPositions_iff {key : α → String} {xs : List α} {i j : Nat}
    (hi : i < xs.length) (hj : j < xs.length) :
    (∃ ps ∈ groupPositions key xs, i ∈ ps ∧ j ∈ ps) ↔ key xs[i] = key xs[j] := by
  -- a position is in the group of the key that the member there has
  have hat (n : Nat) (hn : n < xs.length) (k : String) :
      n ∈ (xs.zipIdx.filter fun p => key p.1 = k).map (·.2) ↔ key xs[n] = k := by
    simp only [List.mem_map, List.mem_filter, decide_eq_true_eq]
    constructor
    · rintro ⟨⟨x, m⟩, ⟨hmem, hk⟩, rfl⟩
      rw [List.mem_zipIdx_iff_getElem?, List.getElem?_eq_getElem hn, Option.some.injEq] at hmem
      rw [hmem]
      exact hk
    · intro hk
      refine ⟨(xs[n], n), ⟨?_, hk⟩, rfl⟩
      rw [List.mem_zipIdx_iff_getElem?, List.getElem?_eq_getElem hn]
  simp only [groupPositions, List.mem_map]
  constructor
  · rintro ⟨ps, ⟨g, hg, rfl⟩, hips, hjps⟩
    obtain ⟨-, k, rfl⟩ := mem_groups.1 hg
    exact ((hat i hi k).1 hips).trans ((hat j hj k).1 hjps).symm
  · intro hkey
    have himem := (hat i hi (key xs[j])).2 hkey
    refine ⟨_, ⟨_, mem_groups.2 ⟨?_, key xs[j], rfl⟩, rfl⟩, himem, (hat j hj _).2 rfl⟩
    exact fun hnil => by simp [hnil] at himem

end Telemetry.Dictionary
