import Telemetry.Proofs.Series.Change
import Telemetry.Proofs.Series.Identity
import Telemetry.Proofs.Sorting

/-!
What becomes of rows when they are collected into series.

A series collects the rows of one key (`Collects`): it is named like the first of them and bears its
labels, and its points are those of the rows by ascending time, with points of one time in the order
of the rows. This says all there is to say about a series, so the collected series are exactly those
of which it is true (`mem_ofRows_iff`), one for each key that occurs, by ascending keys.

Sorted points are determined by what they hold of each time (`Sorts.unique`). The order of the rows
shows in them only where several points have one time, and in the name and the labels only where
rows of one key differ in them. Where neither is so, the order of the rows does not matter.
-/

set_option autoImplicit false

namespace Telemetry.Series

open Time (Instant)

/-! ## Points by time -/

/-- Whether points are those of a list by ascending time, with the points of one time in the order
of the list. -/
structure Sorts (points source : List Point) : Prop where
  perm : points.Perm source
  ascending : Ascending points
  stable : ∀ t, (points.filter fun p => p.time = t) = source.filter fun p => p.time = t

/-- Points are sorted by the rank of their time. -/
theorem sortPoints_eq_mergeSort (points : List Point) :
    sortPoints points = points.mergeSort (Sorting.keyLe fun p => p.time.rank) := by
  unfold sortPoints
  congr 1
  funext a b
  exact decide_eq_decide.2 Instant.le_iff_rank_le

theorem ascending_iff {points : List Point} :
    Ascending points ↔ points.Pairwise fun a b => a.time.rank ≤ b.time.rank := by
  unfold Ascending
  simp only [Instant.le_iff_rank_le]

/-- Points of one rank are those at one instant. -/
theorem filter_rank_eq (points : List Point) (t : Instant) :
    (points.filter fun p => p.time.rank = t.rank) = points.filter fun p => p.time = t := by
  apply List.filter_congr
  intro p _
  exact decide_eq_decide.2 Instant.eq_iff_rank_eq.symm

/-- Sorting is stable. -/
theorem sorts_sortPoints (points : List Point) : Sorts (sortPoints points) points := by
  rw [sortPoints_eq_mergeSort]
  refine ⟨List.mergeSort_perm _ _, ?_, ?_⟩
  · rw [ascending_iff]
    exact Sorting.ascending_mergeSort _ _
  · intro t
    rw [← filter_rank_eq, ← filter_rank_eq, Sorting.filter_mergeSort]

/-- Ascending points are determined by their points of each time. -/
theorem eq_of_filter_time_eq {points points' : List Point} (h : Ascending points)
    (h' : Ascending points')
    (heq : ∀ t, (points.filter fun p => p.time = t) = points'.filter fun p => p.time = t) :
    points = points' := by
  rw [ascending_iff] at h h'
  apply Sorting.eq_of_filter_key_eq h h'
  intro k
  by_cases hk : ∃ t : Instant, t.rank = k
  · obtain ⟨t, rfl⟩ := hk
    rw [filter_rank_eq, filter_rank_eq, heq]
  · -- no instant has this rank, so neither list has a point with it
    have hnil (ps : List Point) : (ps.filter fun p => p.time.rank = k) = [] := by
      apply List.filter_eq_nil_iff.2
      intro p _ hp
      exact hk ⟨p.time, of_decide_eq_true hp⟩
    rw [hnil, hnil]

/-- What a stable sort makes of points depends only on the points at each instant. -/
theorem Sorts.unique {points points' source source' : List Point} (h : Sorts points source)
    (h' : Sorts points' source')
    (heq : ∀ t, (source.filter fun p => p.time = t) = source'.filter fun p => p.time = t) :
    points = points' := by
  apply eq_of_filter_time_eq h.ascending h'.ascending
  intro t
  rw [h.stable, h'.stable, heq]

/-! ## Series of a key -/

/-- The rows of a key, in their order. -/
def rowsOf (rows : List Row) (k : String) : List Row := rows.filter fun row => row.labels.key = k

/-- Whether a series has the rows of its key for its points, and the name and labels of the first of
them. -/
structure Collects (rows : List Row) (s : Series) : Prop where
  first : ∃ row, (rowsOf rows s.labels.key).head? = some row ∧ s.name = row.name ∧
    s.labels = row.labels
  points : Sorts s.points ((rowsOf rows s.labels.key).map Row.point)

theorem mem_rowsOf {rows : List Row} {k : String} {row : Row} :
    row ∈ rowsOf rows k ↔ row ∈ rows ∧ row.labels.key = k := by
  rw [rowsOf, List.mem_filter, decide_eq_true_eq]

/-- The series are those of the keys, and the keys ascend. -/
theorem ofRows_eq_map_keys (rows : List Row) :
    ofRows rows = (Dictionary.collect (·.labels.key) rows).keys.map fun k =>
      ofMembers (rowsOf rows k) := by
  rw [ofRows_eq_groups, Dictionary.groups_eq_map, List.map_map]
  rfl

/-- The series of a key that occurs has this key and collects its rows. -/
theorem collects_ofMembers {rows : List Row} {k : String} (hk : ∃ row ∈ rows, row.labels.key = k) :
    (ofMembers (rowsOf rows k)).labels.key = k ∧ Collects rows (ofMembers (rowsOf rows k)) := by
  obtain ⟨row, hrow, hkey⟩ := hk
  have hmem : row ∈ rowsOf rows k := mem_rowsOf.2 ⟨hrow, hkey⟩
  obtain ⟨first, others, hcons⟩ := List.exists_cons_of_ne_nil (List.ne_nil_of_mem hmem)
  have hfirst : first.labels.key = k := by
    have hhead : first ∈ rowsOf rows k := hcons ▸ List.mem_cons_self
    exact (mem_rowsOf.1 hhead).2
  rw [hcons]
  refine ⟨hfirst, ⟨first, ?_, rfl, rfl⟩, ?_⟩
  · show (rowsOf rows first.labels.key).head? = some first
    rw [hfirst, hcons]
    rfl
  · show Sorts (sortPoints ((first :: others).map Row.point))
      ((rowsOf rows first.labels.key).map Row.point)
    rw [hfirst, hcons]
    exact sorts_sortPoints _

/-- Two series that collect the rows of one key are the same. -/
theorem Collects.eq_of_key_eq {rows : List Row} {s s' : Series} (h : Collects rows s)
    (h' : Collects rows s') (hkey : s.labels.key = s'.labels.key) : s = s' := by
  obtain ⟨⟨row, hhead, hname, hlabels⟩, hpoints⟩ := h
  obtain ⟨⟨row', hhead', hname', hlabels'⟩, hpoints'⟩ := h'
  obtain rfl : row = row' := by
    rw [hkey, hhead', Option.some.injEq] at hhead
    exact hhead.symm
  have hsame : s.points = s'.points := by
    apply hpoints.unique hpoints'
    intro t
    rw [hkey]
  show Series.mk s.name s.labels s.points = Series.mk s'.name s'.labels s'.points
  rw [hname, hlabels, hsame, hname', hlabels']

/-- **The series of some rows are those that collect them.** -/
theorem mem_ofRows_iff {rows : List Row} {s : Series} : s ∈ ofRows rows ↔ Collects rows s := by
  rw [ofRows_eq_map_keys, List.mem_map]
  constructor
  · rintro ⟨k, hk, rfl⟩
    exact (collects_ofMembers (Dictionary.mem_keys_collect.1 hk)).2
  · intro h
    obtain ⟨row, hhead, -⟩ := h.first
    have hrow := mem_rowsOf.1 (List.mem_of_head? hhead)
    obtain ⟨hkey, hcollects⟩ := collects_ofMembers ⟨row, hrow⟩
    exact ⟨s.labels.key, Dictionary.mem_keys_collect.2 ⟨row, hrow⟩, hcollects.eq_of_key_eq h hkey⟩

/-- The keys of the series are strictly ascending. -/
theorem ofRows_ascending (rows : List Row) :
    (ofRows rows).Pairwise fun s t => s.labels.key < t.labels.key := by
  rw [ofRows_eq_map_keys, List.pairwise_map]
  refine (Dictionary.ascending_keys _).imp_of_mem ?_
  intro k k' hk hk' hlt
  rw [(collects_ofMembers (Dictionary.mem_keys_collect.1 hk)).1,
    (collects_ofMembers (Dictionary.mem_keys_collect.1 hk')).1]
  exact hlt

/-- Each row is in a series. -/
theorem exists_mem_ofRows {rows : List Row} {row : Row} (h : row ∈ rows) :
    ∃ s ∈ ofRows rows, s.labels.key = row.labels.key := by
  obtain ⟨hkey, hcollects⟩ := collects_ofMembers ⟨row, h, rfl⟩
  exact ⟨_, mem_ofRows_iff.2 hcollects, hkey⟩

/-- There are as many points as rows. -/
theorem sum_length_points_ofRows (rows : List Row) :
    ((ofRows rows).map (·.points.length)).sum = rows.length := by
  rw [ofRows_eq_groups, List.map_map]
  have hlength : ∀ g ∈ Dictionary.groups (·.labels.key) rows,
      (ofMembers g).points.length = g.length := by
    intro g hg
    obtain ⟨first, others, rfl⟩ := List.exists_cons_of_ne_nil (Dictionary.mem_groups.1 hg).1
    exact (sorts_sortPoints _).perm.length_eq.trans (List.length_map _)
  rw [Function.comp_def, List.map_congr_left hlength, ← List.length_flatten]
  exact (Dictionary.flatten_groups_perm _ rows).length_eq

/-! ## The order of the rows -/

/-- Whether rows of one key have the same labels and the same name. -/
def KeysIdentify (rows : List Row) : Prop :=
  ∀ a ∈ rows, ∀ b ∈ rows, a.labels.key = b.labels.key → a.labels = b.labels ∧ a.name = b.name

/-- Whether rows with the same labels have different times. -/
def TimesDiffer (rows : List Row) : Prop :=
  rows.Pairwise fun a b => a.labels = b.labels → a.time ≠ b.time

/-- Whether times differ does not depend on the order of rows. -/
theorem TimesDiffer.perm {rows rows' : List Row} (h : TimesDiffer rows) (hperm : rows.Perm rows') :
    TimesDiffer rows' := by
  apply (hperm.pairwise_iff _).1 h
  intro a b hab hlabels htime
  exact hab hlabels.symm htime.symm

/-- Of rows whose times differ, a key has at most one at each time. -/
theorem TimesDiffer.point {rows : List Row} (h : TimesDiffer rows) (hkeys : KeysIdentify rows)
    (k : String) (t : Instant) :
    (((rowsOf rows k).map Row.point).filter fun p => p.time = t).Pairwise fun _ _ => False := by
  rw [List.filter_map, List.pairwise_map]
  have hpairwise := (List.Pairwise.filter (fun row => decide (row.labels.key = k)) h).filter
    ((fun p => decide (p.time = t)) ∘ Row.point)
  refine hpairwise.imp_of_mem ?_
  intro a b ha hb hab
  rw [List.mem_filter, Function.comp_apply, decide_eq_true_eq] at ha hb
  obtain ⟨ha, hta⟩ := ha
  obtain ⟨hb, htb⟩ := hb
  have hka := mem_rowsOf.1 ha
  have hkb := mem_rowsOf.1 hb
  exact hab (hkeys a hka.1 b hkb.1 (hka.2.trans hkb.2.symm)).1 (hta.trans htb.symm)

/-- A series that collects rows also collects them in any other order. -/
theorem Collects.perm {rows rows' : List Row} {s : Series} (h : Collects rows s)
    (hkeys : KeysIdentify rows) (htimes : TimesDiffer rows) (hperm : rows.Perm rows') :
    Collects rows' s := by
  have hrows : (rowsOf rows s.labels.key).Perm (rowsOf rows' s.labels.key) := hperm.filter _
  have hpoints := hrows.map Row.point
  refine ⟨?_, h.points.perm.trans hpoints, h.points.ascending, ?_⟩
  · obtain ⟨row, hhead, hname, hlabels⟩ := h.first
    have hrow := List.mem_of_head? hhead
    obtain ⟨row', others, hcons⟩ :=
      List.exists_cons_of_ne_nil (List.ne_nil_of_mem (hrows.mem_iff.1 hrow))
    have hrow' : row' ∈ rowsOf rows s.labels.key := by
      rw [hrows.mem_iff, hcons]
      exact List.mem_cons_self
    -- the first of the rows may be another one, but it has the same labels and name
    obtain ⟨hl, hn⟩ := hkeys row (mem_rowsOf.1 hrow).1 row' (mem_rowsOf.1 hrow').1
      ((mem_rowsOf.1 hrow).2.trans (mem_rowsOf.1 hrow').2.symm)
    refine ⟨row', ?_, hname.trans hn, hlabels.trans hl⟩
    rw [hcons]
    rfl
  · intro t
    rw [h.points.stable]
    -- there is at most one point of this time, so it does not matter where it stands
    have hone := htimes.point hkeys s.labels.key t
    have hfilter := hpoints.filter fun p => p.time = t
    exact hfilter.eq_of_pairwise (fun _ _ _ _ h => h.elim) hone
      ((hfilter.pairwise_iff fun h => h).1 hone)

theorem KeysIdentify.perm {rows rows' : List Row} (h : KeysIdentify rows)
    (hperm : rows.Perm rows') : KeysIdentify rows' := by
  intro a ha b hb
  exact h a (hperm.mem_iff.2 ha) b (hperm.mem_iff.2 hb)

/-- Series with ascending keys are determined by which ones they are. -/
theorem eq_of_mem_iff {ss ss' : List Series}
    (h : ss.Pairwise fun s t => s.labels.key < t.labels.key)
    (h' : ss'.Pairwise fun s t => s.labels.key < t.labels.key) (hmem : ∀ s, s ∈ ss ↔ s ∈ ss') :
    ss = ss' := by
  have hne {l : List Series} (hl : l.Pairwise fun s t => s.labels.key < t.labels.key) :
      l.Nodup := by
    refine hl.imp ?_
    intro s t hlt heq
    exact String.lt_irrefl t.labels.key (heq ▸ hlt)
  have hperm := (List.perm_ext_iff_of_nodup (hne h) (hne h')).2 hmem
  refine hperm.eq_of_pairwise ?_ h h'
  intro s t _ _ hst hts
  exact absurd (String.lt_trans hst hts) (String.lt_irrefl _)

/-- **Collecting rows into series loses, invents and reorders nothing.** The series have strictly
ascending keys; each row is in one, and each one has exactly the rows of its key for its points, by
ascending time and, at one time, in the order of the rows; so there are as many points as rows.
Where rows of one key have the same labels and the same name, and rows with the same labels have
different times, the rows may come in any order. -/
theorem ofRows_keeps_rows (rows : List Row) :
    (ofRows rows).Pairwise (fun s t => s.labels.key < t.labels.key) ∧
    (∀ row ∈ rows, ∃ s ∈ ofRows rows, s.labels.key = row.labels.key) ∧
    (∀ s ∈ ofRows rows,
      (∃ row, (rowsOf rows s.labels.key).head? = some row ∧ s.name = row.name ∧
        s.labels = row.labels) ∧
      Sorts s.points ((rowsOf rows s.labels.key).map Row.point)) ∧
    ((ofRows rows).map (·.points.length)).sum = rows.length ∧
    (KeysIdentify rows → TimesDiffer rows →
      ∀ rows', rows.Perm rows' → ofRows rows' = ofRows rows) := by
  refine ⟨ofRows_ascending rows, fun row hrow => exists_mem_ofRows hrow, fun s hs => ?_,
    sum_length_points_ofRows rows, fun hkeys htimes rows' hperm => ?_⟩
  · obtain ⟨hfirst, hpoints⟩ := mem_ofRows_iff.1 hs
    exact ⟨hfirst, hpoints⟩
  · apply eq_of_mem_iff (ofRows_ascending rows') (ofRows_ascending rows)
    intro s
    rw [mem_ofRows_iff, mem_ofRows_iff]
    constructor
    · intro h
      exact h.perm (hkeys.perm hperm) (htimes.perm hperm) hperm.symm
    · intro h
      exact h.perm hkeys htimes hperm

/-- Rows of two label sets; those of the first come later ones first, and one of them has the time
of the row between them. -/
def mingledRows : List Row :=
  let a := Dictionary.empty.insert "host" "a"
  let b := Dictionary.empty.insert "host" "b"
  [⟨"up", .ofNanos 2000000000, 1, a⟩, ⟨"up", .ofNanos 1000000000, 2, b⟩,
    ⟨"up", .ofNanos 1000000000, 3, a⟩]

/-- The theorem for three rows of two series, mingled and then in reverse. -/
theorem ofRows_mingledRows :
    (KeysIdentify mingledRows ∧ TimesDiffer mingledRows) ∧
      ofRows mingledRows.reverse = ofRows mingledRows ∧
      ((ofRows mingledRows).map (·.points.length)).sum = 3 := by
  have hplain : ∀ row ∈ mingledRows, row.labels.Plain ∧ row.name = "up" := by decide
  have hkeys : KeysIdentify mingledRows := by
    intro a ha b hb hkey
    obtain ⟨hla, hna⟩ := hplain a ha
    obtain ⟨hlb, hnb⟩ := hplain b hb
    exact ⟨hla.eq_of_key_eq hlb hkey, hna.trans hnb.symm⟩
  have htimes : TimesDiffer mingledRows := by
    unfold TimesDiffer
    decide
  obtain ⟨-, -, -, hcount, horder⟩ := ofRows_keeps_rows mingledRows
  exact ⟨⟨hkeys, htimes⟩, horder hkeys htimes _ (List.reverse_perm _).symm, hcount⟩

end Telemetry.Series
