import Telemetry.Proofs.Series.Collection
import Telemetry.Proofs.Series.Partition

/-!
What the series of a result have in common with the rows that they are computed from.

The series of rows ascend by the keys of their labels, and if the rows share a name, the series do
(`Listed`). Each of their labels is one of a row (`LabelledBy`). Both stay so whatever is applied to
the series: a function keeps names and labels, unless it is an aggregation; and an aggregation makes
one series at most for each key that is left, names them all alike, and adds no labels. Keys need
not tell labels apart for this, as series with different keys have different labels in any case.
-/

set_option autoImplicit false

namespace Telemetry.Series

open Time (Instant)

/-! ## Names and labels -/

/-- The name and the labels of a series. -/
def head (s : Series) : String × Labels := (s.name, s.labels)

/-- Whether series ascend by the keys of their labels and share one name. -/
structure Listed (series : List Series) : Prop where
  ascending : series.Pairwise fun s t => s.labels.key < t.labels.key
  named : ∀ s ∈ series, ∀ t ∈ series, s.name = t.name

/-- Whether each label of the series is one of a row. -/
def LabelledBy (rows : List Row) (series : List Series) : Prop :=
  ∀ s ∈ series, ∀ e ∈ s.labels.entries, ∃ row ∈ rows, e ∈ row.labels.entries

/-- Series that are listed have different labels, as their keys differ. -/
theorem Listed.labels_ne {series : List Series} (h : Listed series) :
    series.Pairwise fun s t => s.labels ≠ t.labels := by
  refine h.ascending.imp ?_
  intro s t hlt heq
  exact String.lt_irrefl t.labels.key (heq ▸ hlt)

/-- Only names and labels matter. -/
theorem Listed.of_map_head_eq {series series' : List Series} (h : Listed series)
    (heads : series'.map head = series.map head) : Listed series' := by
  have hmem (s : Series) (hs : s ∈ series') : ∃ s₀ ∈ series, s₀.head = s.head :=
    List.mem_map.1 (heads ▸ List.mem_map_of_mem hs)
  constructor
  · have hpairwise : (series.map head).Pairwise fun a b => a.2.key < b.2.key :=
      List.pairwise_map.2 h.ascending
    rw [← heads] at hpairwise
    exact (List.pairwise_map (R := fun a b : String × Labels => a.2.key < b.2.key)).1 hpairwise
  · intro s hs t ht
    obtain ⟨s₀, hs₀, hs⟩ := hmem s hs
    obtain ⟨t₀, ht₀, ht⟩ := hmem t ht
    rw [← (Prod.mk.inj hs).1, ← (Prod.mk.inj ht).1]
    exact h.named s₀ hs₀ t₀ ht₀

/-- Changing points does not touch labels. -/
theorem LabelledBy.of_map_head_eq {rows : List Row} {series series' : List Series}
    (h : LabelledBy rows series) (heads : series'.map head = series.map head) :
    LabelledBy rows series' := by
  intro s hs e he
  obtain ⟨s₀, hs₀, hhead⟩ := List.mem_map.1 (heads ▸ List.mem_map_of_mem hs)
  exact h s₀ hs₀ e ((Prod.mk.inj hhead).2 ▸ he)

/-! ## Series of rows -/

/-- The series of rows of one name. -/
theorem listed_ofRows {rows : List Row} (hname : ∀ a ∈ rows, ∀ b ∈ rows, a.name = b.name) :
    Listed (ofRows rows) := by
  refine ⟨ofRows_ascending rows, fun s hs t ht => ?_⟩
  obtain ⟨a, ha, hsname, -⟩ := (mem_ofRows_iff.1 hs).first
  obtain ⟨b, hb, htname, -⟩ := (mem_ofRows_iff.1 ht).first
  rw [hsname, htname]
  exact hname a (mem_rowsOf.1 (List.mem_of_head? ha)).1 b (mem_rowsOf.1 (List.mem_of_head? hb)).1

/-- The series of rows have labels of rows. -/
theorem labelledBy_ofRows (rows : List Row) : LabelledBy rows (ofRows rows) := by
  intro s hs e he
  obtain ⟨row, hrow, -, hlabels⟩ := (mem_ofRows_iff.1 hs).first
  exact ⟨row, (mem_rowsOf.1 (List.mem_of_head? hrow)).1, hlabels ▸ he⟩

/-! ## Aggregations -/

/-- What a group is reduced to bears the labels of the group, and is named like the first member or
like the aggregation. -/
theorem of_reduceMembers_eq_some {a : Aggregator} {grouping : Grouping} {time : Instant}
    {ss : List Series} {out : Series} (h : reduceMembers a.name grouping time ss = some out) :
    ∃ first ∈ ss, out.labels = groupLabels grouping first ∧
      out.name = if a = .count then "count" else first.name := by
  have hne : ss ≠ [] := by
    rintro rfl
    cases h
  rcases reduceMembers_of a grouping time hne with ⟨-, out', hout, hreduces⟩ | ⟨-, hnone⟩
  · obtain rfl : out' = out := Option.some.inj (hout.symm.trans h)
    obtain ⟨first, others, rfl⟩ := List.exists_cons_of_ne_nil hne
    refine ⟨first, List.mem_cons_self, hreduces.labels_eq, ?_⟩
    -- the first member of the group is the first of the series
    cases hreduces with
    | count => rfl
    | sum hhead => cases hhead; rfl
    | avg hhead => cases hhead; rfl
    | min hhead => cases hhead; rfl
    | max hhead => cases hhead; rfl
  · cases hnone.symm.trans h

/-- The results of an aggregation, one for each key of a group. -/
theorem reduceGroups_eq_filterMap_keys (operation : String) (grouping : Grouping)
    {series : List Series} (time : Instant) (hne : series ≠ []) :
    reduceGroups operation grouping series time =
      (Dictionary.collect (fun s => (groupLabels grouping s).key) series).keys.filterMap fun k =>
        reduceMembers operation grouping time
          (series.filter fun s => (groupLabels grouping s).key = k) := by
  rw [reduceGroups_eq_groups operation grouping time hne, Dictionary.groups_eq_map,
    List.filterMap_map]
  rfl

/-- Of no series there is at most a count. -/
theorem reduceGroups_nil (operation : String) (grouping : Grouping) (time : Instant) :
    reduceGroups operation grouping [] time = [] ∨
      reduceGroups operation grouping [] time = [single "count" .empty time 0.0] := by
  rw [reduceGroups, List.isEmpty_nil, if_pos rfl]
  split
  next => exact .inr rfl
  next => exact .inl rfl

/-- **An aggregation lists its groups**, by ascending keys, whatever labels have the same key. -/
theorem Listed.reduceGroups {series : List Series} (h : Listed series) (a : Aggregator)
    (grouping : Grouping) (time : Instant) :
    Listed (reduceGroups a.name grouping series time) := by
  -- without series there is nothing, or the count of nothing as the only series
  by_cases hne : series = []
  · rw [hne]
    rcases reduceGroups_nil a.name grouping time with hnil | hcount
    · rw [hnil]
      exact ⟨.nil, nofun⟩
    · rw [hcount]
      refine ⟨List.pairwise_singleton _ _, ?_⟩
      intro s hs t ht
      rw [List.mem_singleton.1 hs, List.mem_singleton.1 ht]
  · rw [reduceGroups_eq_filterMap_keys a.name grouping time hne]
    constructor
    -- the groups are visited by ascending keys, and each gives at most one series with its key
    · refine (Dictionary.ascending_keys _).filterMap _ ?_
      intro k k' hlt out hout out' hout'
      obtain ⟨first, hfirst, hlabels, -⟩ := of_reduceMembers_eq_some hout
      obtain ⟨first', hfirst', hlabels', -⟩ := of_reduceMembers_eq_some hout'
      have hk : (groupLabels grouping first).key = k :=
        of_decide_eq_true (List.mem_filter.1 hfirst).2
      have hk' : (groupLabels grouping first').key = k' :=
        of_decide_eq_true (List.mem_filter.1 hfirst').2
      rw [hlabels, hlabels', hk, hk']
      exact hlt
    · intro s hs t ht
      obtain ⟨k, -, hout⟩ := List.mem_filterMap.1 hs
      obtain ⟨k', -, hout'⟩ := List.mem_filterMap.1 ht
      obtain ⟨first, hfirst, -, hname⟩ := of_reduceMembers_eq_some hout
      obtain ⟨first', hfirst', -, hname'⟩ := of_reduceMembers_eq_some hout'
      rw [hname, hname',
        h.named first (List.mem_filter.1 hfirst).1 first' (List.mem_filter.1 hfirst').1]

/-- A grouping leaves some of the labels. -/
theorem entries_groupLabels_subset (grouping : Grouping) (s : Series) :
    (groupLabels grouping s).entries ⊆ s.labels.entries := by
  cases grouping with
  | none => exact List.nil_subset _
  | on names => exact List.filter_subset_self _
  | without names => exact List.filter_subset_self _

/-- Reducing groups leaves only labels that their series had. -/
theorem LabelledBy.reduceGroups {rows : List Row} {series : List Series}
    (h : LabelledBy rows series) (a : Aggregator) (grouping : Grouping) (time : Instant) :
    LabelledBy rows (reduceGroups a.name grouping series time) := by
  intro s hs e he
  by_cases hne : series = []
  · rw [hne] at hs
    rcases reduceGroups_nil a.name grouping time with hnil | hcount
    · rw [hnil] at hs
      cases hs
    · rw [hcount] at hs
      rw [List.mem_singleton.1 hs] at he
      cases he
  · rw [reduceGroups_eq_filterMap_keys a.name grouping time hne] at hs
    obtain ⟨k, -, hout⟩ := List.mem_filterMap.1 hs
    obtain ⟨first, hfirst, hlabels, -⟩ := of_reduceMembers_eq_some hout
    exact h first (List.mem_filter.1 hfirst).1 e (entries_groupLabels_subset grouping first
      (hlabels ▸ he))

/-- An aggregation that has results is one of the five. -/
theorem exists_of_aggregate_eq_ok {a : Aggregation} {series out : List Series} {time : Instant}
    (h : aggregate a series time = .ok out) :
    ∃ op : Aggregator, out = reduceGroups op.name a.grouping series time := by
  obtain ⟨⟨⟩, hensured, hout⟩ := Fallible.bind_eq_ok h
  obtain ⟨op, hop⟩ := mem_aggregations_iff.1 (ensureAggregation_eq_ok_iff.1 hensured)
  refine ⟨op, ?_⟩
  rw [← hop]
  exact (Except.ok.inj hout).symm

/-- Any aggregation keeps series listed. -/
theorem Listed.aggregate {a : Aggregation} {series out : List Series} {time : Instant}
    (hlisted : Listed series) (h : aggregate a series time = .ok out) : Listed out := by
  obtain ⟨op, rfl⟩ := exists_of_aggregate_eq_ok h
  exact hlisted.reduceGroups op a.grouping time

/-- Any aggregation keeps labels those of rows. -/
theorem LabelledBy.aggregate {a : Aggregation} {rows : List Row} {series out : List Series}
    {time : Instant} (hlabels : LabelledBy rows series) (h : aggregate a series time = .ok out) :
    LabelledBy rows out := by
  obtain ⟨op, rfl⟩ := exists_of_aggregate_eq_ok h
  exact hlabels.reduceGroups op a.grouping time

/-! ## Functions -/

/-- A function is an aggregation, or keeps the names and labels of the series. -/
theorem of_apply_eq_ok {name : String} {series out : List Series} {range : Option Int}
    {time : Instant} (h : apply name series range time = .ok out) :
    (∃ op : Aggregator, out = reduceGroups op.name .none series time) ∨
      out.map head = series.map head := by
  have hdispatch := dispatch_apply name series range time
  rw [h] at hdispatch
  generalize hresult : (Except.ok out : Except Error (List Series)) = result at hdispatch
  -- one case per function: only the totals put series together
  cases hdispatch with
  | rate =>
    right
    obtain ⟨n, -, hout⟩ := Fallible.bind_eq_ok hresult.symm
    obtain rfl := Except.ok.inj hout
    rw [List.map_map]
    rfl
  | increase =>
    right
    obtain ⟨n, -, hout⟩ := Fallible.bind_eq_ok hresult.symm
    have hheads : List.Forall₂ (fun s t => head s = head t) series out :=
      (Fallible.mapM_eq_ok_iff.1 hout).imp fun s t hst => by
        obtain ⟨points, -, hst⟩ := Fallible.bind_eq_ok hst
        obtain rfl := Except.ok.inj hst
        rfl
    rw [eq_comm, ← List.forall₂_eq_eq_eq, List.forall₂_map_left_iff, List.forall₂_map_right_iff]
    exact hheads
  | values =>
    right
    obtain rfl := Except.ok.inj hresult
    rw [mapValues, List.map_map]
    rfl
  | total hname =>
    left
    obtain ⟨op, rfl⟩ := mem_aggregations_iff.1 hname
    exact ⟨op, Except.ok.inj hresult⟩
  | unknown => cases hresult

/-- Any function keeps series listed. -/
theorem Listed.apply {name : String} {series out : List Series} {range : Option Int}
    {time : Instant} (hlisted : Listed series) (h : apply name series range time = .ok out) :
    Listed out := by
  rcases of_apply_eq_ok h with ⟨op, rfl⟩ | hheads
  · exact hlisted.reduceGroups op .none time
  · exact hlisted.of_map_head_eq hheads

/-- Any function keeps labels those of rows. -/
theorem LabelledBy.apply {name : String} {rows : List Row} {series out : List Series}
    {range : Option Int} {time : Instant} (hlabels : LabelledBy rows series)
    (h : apply name series range time = .ok out) : LabelledBy rows out := by
  rcases of_apply_eq_ok h with ⟨op, rfl⟩ | hheads
  · exact hlabels.reduceGroups op .none time
  · exact hlabels.of_map_head_eq hheads

end Telemetry.Series
