import Mathlib.Algebra.Order.BigOperators.Group.List
import Mathlib.Algebra.Order.Group.Nat
import Telemetry.Proofs.Double
import Telemetry.Proofs.Series.Identity

/-!
How an aggregation divides series into groups, and what it makes of each group.

A grouping leaves some labels of each series, and a group has the series of which it leaves the same
ones. Where keys tell these labels apart, the groups that are collected by key are a partition of
the series (`Partitions`): they ascend by key, each series is in exactly one of them, and within a
group the series stand in their order. What an aggregation makes of a group is a relation between
the group and the result (`Reduces`), so the results are those of the groups, one after another,
except that there is no extreme of a group without points.

Counts are doubles, but as long as there are fewer than 2^53 series they are exact, so the numbers
read back from them add up to the number of series.
-/

set_option autoImplicit false

namespace Telemetry.Series

open Dictionary (groups)
open Time (Instant)

/-! ## Groups

A group holds the series with the same labels under the grouping, and is named by the key of
these. Label sets that are different and have one key would share a group, so keys are assumed to
tell the labels apart. -/

/-- Series that are reduced to one: the labels that are left of them, and the members in order. -/
structure Group where
  labels : Labels
  members : List Series

/-- The values of all points of the members, in order. -/
def Group.values (g : Group) : List Float := g.members.flatMap fun s => s.points.map (·.value)

/-- Whether a member has a point. -/
def Group.HasPoint (g : Group) : Prop := ∃ s ∈ g.members, s.points ≠ []

instance (g : Group) : Decidable g.HasPoint :=
  inferInstanceAs (Decidable (∃ s ∈ g.members, s.points ≠ []))

theorem Group.values_eq_nil_iff {g : Group} : g.values = [] ↔ ¬ g.HasPoint := by
  simp [values, HasPoint]

/-- Whether groups are those into which a grouping divides series. -/
structure Partitions (grouping : Grouping) (series : List Series) (gs : List Group) : Prop where
  ascending : gs.Pairwise fun g h => g.labels.key < h.labels.key
  nonempty : ∀ g ∈ gs, g.members ≠ []
  members : ∀ g ∈ gs, g.members = series.filter fun s => groupLabels grouping s = g.labels
  one : ∀ s ∈ series, ∃! g, g ∈ gs ∧ g.labels = groupLabels grouping s
  whole : (gs.flatMap (·.members)).Perm series

/-- The group of a series: the series of which the same labels are left. -/
def groupOf (grouping : Grouping) (series : List Series) (s : Series) : Group where
  labels := groupLabels grouping s
  members := series.filter fun s' => groupLabels grouping s' = groupLabels grouping s

/-- The group that members with one key make. It bears what is left of the first one's labels. -/
def Group.of (grouping : Grouping) : List Series → Group
  | [] => ⟨.empty, []⟩
  | first :: others => ⟨groupLabels grouping first, first :: others⟩

@[simp] theorem Group.members_of (grouping : Grouping) (ss : List Series) :
    (Group.of grouping ss).members = ss := by
  cases ss with
  | nil => rfl
  | cons first others => rfl

/-- The groups that are collected by key. -/
def groupsOf (grouping : Grouping) (series : List Series) : List Group :=
  (groups (fun s => (groupLabels grouping s).key) series).map (Group.of grouping)

section Partition

variable {grouping : Grouping} {series : List Series}

/-- The groups together are the series, in another order. -/
theorem flatMap_groupsOf_perm : ((groupsOf grouping series).flatMap (·.members)).Perm series := by
  unfold groupsOf
  rw [List.flatMap_map]
  simp only [Group.members_of]
  rw [List.flatMap_id']
  exact Dictionary.flatten_groups_perm _ series

/-- The groups are those of the keys, and the keys ascend. -/
theorem groupsOf_eq_map_keys : groupsOf grouping series =
    (Dictionary.collect (fun s => (groupLabels grouping s).key) series).keys.map fun k =>
      Group.of grouping (series.filter fun s => (groupLabels grouping s).key = k) := by
  unfold groupsOf
  rw [Dictionary.groups_eq_map, List.map_map]
  rfl

/-- The group of a series has those with the same labels in the grouping. -/
theorem mem_groupOf {s s' : Series} : s' ∈ (groupOf grouping series s).members ↔
    s' ∈ series ∧ groupLabels grouping s' = groupLabels grouping s := by
  unfold groupOf
  rw [List.mem_filter, decide_eq_true_eq]

/-- A series is in its own group. -/
theorem mem_groupOf_self {s : Series} (hs : s ∈ series) :
    s ∈ (groupOf grouping series s).members :=
  mem_groupOf.2 ⟨hs, rfl⟩

variable (hkeys : KeysTell (series.map (groupLabels grouping)))

include hkeys

/-- Where keys tell labels apart, the members of a key are those of the group. -/
theorem filter_key_eq {s : Series} (hs : s ∈ series) :
    (series.filter fun s' => (groupLabels grouping s').key = (groupLabels grouping s).key) =
      (groupOf grouping series s).members := by
  apply List.filter_congr
  intro s' hs'
  apply decide_eq_decide.2
  constructor
  · exact hkeys _ (List.mem_map_of_mem hs') _ (List.mem_map_of_mem hs)
  · intro heq
    rw [heq]

/-- Where keys tell labels apart, series with one key are those of one group. -/
theorem of_filter_key_eq {s : Series} (hs : s ∈ series) :
    Group.of grouping (series.filter fun s' =>
      (groupLabels grouping s').key = (groupLabels grouping s).key) =
        groupOf grouping series s := by
  rw [filter_key_eq hkeys hs]
  have hself : s ∈ (groupOf grouping series s).members := mem_groupOf_self hs
  obtain ⟨first, others, hcons⟩ := List.exists_cons_of_ne_nil (List.ne_nil_of_mem hself)
  -- the first member may be another series, but the same labels are left of it
  have hfirst : first ∈ (groupOf grouping series s).members := hcons ▸ List.mem_cons_self
  have hlabels := (mem_groupOf.1 hfirst).2
  rw [hcons]
  unfold Group.of
  simp only
  rw [hlabels, ← hcons]
  rfl

/-- The groups are those of the series. -/
theorem mem_groupsOf_iff {g : Group} :
    g ∈ groupsOf grouping series ↔ ∃ s ∈ series, g = groupOf grouping series s := by
  rw [groupsOf_eq_map_keys, List.mem_map]
  constructor
  · rintro ⟨k, hk, rfl⟩
    obtain ⟨s, hs, rfl⟩ := Dictionary.mem_keys_collect.1 hk
    exact ⟨s, hs, of_filter_key_eq hkeys hs⟩
  · rintro ⟨s, hs, rfl⟩
    exact ⟨_, Dictionary.mem_keys_collect.2 ⟨s, hs, rfl⟩, of_filter_key_eq hkeys hs⟩

/-- Groups ascend by key. -/
theorem groupsOf_ascending :
    (groupsOf grouping series).Pairwise fun g h => g.labels.key < h.labels.key := by
  rw [groupsOf_eq_map_keys, List.pairwise_map]
  -- the keys of the dictionary ascend, and each one is the key of its group
  refine (Dictionary.ascending_keys _).imp_of_mem ?_
  intro k k' hk hk' hlt
  obtain ⟨s, hs, rfl⟩ := Dictionary.mem_keys_collect.1 hk
  obtain ⟨s', hs', rfl⟩ := Dictionary.mem_keys_collect.1 hk'
  rw [of_filter_key_eq hkeys hs, of_filter_key_eq hkeys hs']
  exact hlt

/-- **Collecting by key divides the series by the labels that are left of them.** -/
theorem partitions_groupsOf : Partitions grouping series (groupsOf grouping series) where
  ascending := groupsOf_ascending hkeys
  nonempty := by
    intro g hg
    obtain ⟨s, hs, rfl⟩ := (mem_groupsOf_iff hkeys).1 hg
    exact List.ne_nil_of_mem (mem_groupOf_self hs)
  members := by
    intro g hg
    obtain ⟨s, -, rfl⟩ := (mem_groupsOf_iff hkeys).1 hg
    rfl
  one := by
    intro s hs
    refine ⟨groupOf grouping series s, ⟨(mem_groupsOf_iff hkeys).2 ⟨s, hs, rfl⟩, rfl⟩, ?_⟩
    intro g hg
    obtain ⟨s', -, rfl⟩ := (mem_groupsOf_iff hkeys).1 hg.1
    -- the labels of a group determine its members
    have hlabels : groupLabels grouping s' = groupLabels grouping s := hg.2
    unfold groupOf
    rw [hlabels]
  whole := flatMap_groupsOf_perm

end Partition

/-! ## Results

Each group is reduced to one result, or to none where an extreme is asked for and no member has a
point. The results stand in the order of the groups. -/

/-- What an aggregation makes of a group at an instant. -/
inductive Reduces (time : Instant) (g : Group) : Aggregator → Series → Prop where
  /-- The sums by time, named like the first member. -/
  | sum {first : Series} (h : g.members.head? = some first) :
      Reduces time g .sum ⟨first.name, g.labels, sumByTime g.members⟩
  /-- The means by time, in the same way. -/
  | avg {first : Series} (h : g.members.head? = some first) :
      Reduces time g .avg ⟨first.name, g.labels, meanByTime g.members⟩
  /-- One point with the number of the members. -/
  | count : Reduces time g .count
      ⟨"count", g.labels, [⟨time, floatOfWord g.members.length⟩]⟩
  /-- One point with the least of the values, folded from the left. -/
  | min {first : Series} {v : Float} {vs : List Float} (h : g.members.head? = some first)
      (hv : g.values = v :: vs) :
      Reduces time g .min ⟨first.name, g.labels, [⟨time, vs.foldl smaller v⟩]⟩
  /-- One point with the greatest of the values, in the same way. -/
  | max {first : Series} {v : Float} {vs : List Float} (h : g.members.head? = some first)
      (hv : g.values = v :: vs) :
      Reduces time g .max ⟨first.name, g.labels, [⟨time, vs.foldl greater v⟩]⟩

/-- Whether an aggregation makes anything of a group: there is no extreme without a point. -/
def Answers : Aggregator → Group → Prop
  | .min, g => g.HasPoint
  | .max, g => g.HasPoint
  | _, _ => True

instance (a : Aggregator) (g : Group) : Decidable (Answers a g) :=
  match a with
  | .min => inferInstanceAs (Decidable g.HasPoint)
  | .max => inferInstanceAs (Decidable g.HasPoint)
  | .sum => inferInstanceAs (Decidable True)
  | .avg => inferInstanceAs (Decidable True)
  | .count => inferInstanceAs (Decidable True)

/-- What a group is reduced to has its labels. -/
theorem Reduces.labels_eq {time : Instant} {g : Group} {a : Aggregator} {out : Series}
    (h : Reduces time g a out) : out.labels = g.labels := by
  cases h <;> rfl

/-- The values of a group are folded if there are any, and what is made of the result has whatever
is true of all that is made of such folds. -/
theorem map_reduce?_members {f : Float → Float → Float} {make : Float → Series}
    {r : Series → Prop} (g : Group) (h : ∀ v vs, g.values = v :: vs → r (make (vs.foldl f v))) :
    (g.HasPoint ∧ ∃ out, (reduce? f g.members).map make = some out ∧ r out) ∨
      (¬ g.HasPoint ∧ (reduce? f g.members).map make = none) := by
  unfold reduce?
  split
  next hvalues =>
    right
    exact ⟨Group.values_eq_nil_iff.1 hvalues, rfl⟩
  next v vs hvalues =>
    left
    refine ⟨?_, _, rfl, h v vs hvalues⟩
    by_contra hnone
    have hnil := Group.values_eq_nil_iff.2 hnone
    unfold Group.values at hnil
    rw [hnil] at hvalues
    cases hvalues

/-- **What a group is reduced to**: something that the aggregation makes of it, if it makes anything
of it. -/
theorem reduceMembers_of (a : Aggregator) (grouping : Grouping) (time : Instant)
    {ss : List Series} (hne : ss ≠ []) :
    (Answers a (.of grouping ss) ∧ ∃ out, reduceMembers a.name grouping time ss = some out ∧
        Reduces time (.of grouping ss) a out) ∨
      (¬ Answers a (.of grouping ss) ∧ reduceMembers a.name grouping time ss = none) := by
  obtain ⟨first, others, rfl⟩ := List.exists_cons_of_ne_nil hne
  cases a with
  | sum => exact .inl ⟨trivial, _, rfl, .sum rfl⟩
  | avg => exact .inl ⟨trivial, _, rfl, .avg rfl⟩
  | count => exact .inl ⟨trivial, _, rfl, .count⟩
  | min => exact map_reduce?_members (.of grouping (first :: others)) fun v vs hv => .min rfl hv
  | max => exact map_reduce?_members (.of grouping (first :: others)) fun v vs hv => .max rfl hv

/-- Members that are left out where a function has no result are in step with the results. -/
theorem forall₂_filterMap {α β : Type} {r : α → β → Prop} {p : α → Prop} [DecidablePred p]
    {f : α → Option β} {xs : List α}
    (h : ∀ x ∈ xs, (p x ∧ ∃ y, f x = some y ∧ r x y) ∨ (¬ p x ∧ f x = none)) :
    List.Forall₂ r (xs.filter p) (xs.filterMap f) := by
  induction xs with
  | nil => exact .nil
  | cons x xs ih =>
    have hrest := ih fun x' hx' => h x' (List.mem_cons_of_mem _ hx')
    obtain ⟨hp, y, hf, hr⟩ | ⟨hp, hf⟩ := h x List.mem_cons_self
    · rw [List.filter_cons_of_pos (by simpa using hp), List.filterMap_cons_some hf]
      exact .cons hr hrest
    · rw [List.filter_cons_of_neg (by simpa using hp), List.filterMap_cons_none hf]
      exact hrest

section Results

variable {grouping : Grouping} {series : List Series} (hne : series ≠ [])

include hne

/-- The results are what the aggregation makes of the groups of which it makes anything. -/
theorem reduceGroups_reduces (a : Aggregator) (time : Instant) :
    List.Forall₂ (fun g out => Reduces time g a out)
      ((groupsOf grouping series).filter fun g => Answers a g)
      (reduceGroups a.name grouping series time) := by
  let collected := groups (fun s => (groupLabels grouping s).key) series
  have hgroups : List.Forall₂ (fun ss out => Reduces time (.of grouping ss) a out)
      (collected.filter fun ss => Answers a (.of grouping ss))
      (collected.filterMap (reduceMembers a.name grouping time)) :=
    forall₂_filterMap fun ss hss =>
      reduceMembers_of a grouping time (Dictionary.mem_groups.1 hss).1
  rw [reduceGroups_eq_groups a.name grouping time hne, groupsOf, List.filter_map]
  exact List.forall₂_map_left_iff.2 hgroups

/-- The results have the labels of the groups, in the order of the groups. -/
theorem labels_reduceGroups (a : Aggregator) (time : Instant) :
    (reduceGroups a.name grouping series time).map (·.labels) =
      ((groupsOf grouping series).filter fun g => Answers a g).map (·.labels) := by
  have hlabels : List.Forall₂ (fun out g => Series.labels out = Group.labels g)
      (reduceGroups a.name grouping series time)
      ((groupsOf grouping series).filter fun g => Answers a g) :=
    ((reduceGroups_reduces hne a time).imp fun _ _ h => h.labels_eq).flip
  rw [← List.forall₂_eq_eq_eq, List.forall₂_map_left_iff, List.forall₂_map_right_iff]
  exact hlabels

/-- The counts are those of the members of the groups. -/
theorem reduceGroups_count (time : Instant) :
    reduceGroups "count" grouping series time = (groupsOf grouping series).map fun g =>
      ⟨"count", g.labels, [⟨time, floatOfWord g.members.length⟩]⟩ := by
  have hall : ((groupsOf grouping series).filter fun g => Answers .count g) =
      groupsOf grouping series :=
    List.filter_eq_self.2 fun _ _ => decide_eq_true trivial
  have hreduces : List.Forall₂ (fun g out => Reduces time g .count out)
      ((groupsOf grouping series).filter fun g => Answers .count g)
      (reduceGroups "count" grouping series time) := reduceGroups_reduces hne .count time
  rw [hall] at hreduces
  rw [← List.forall₂_eq_eq_eq, List.forall₂_map_right_iff]
  refine (hreduces.imp ?_).flip
  rintro g out ⟨⟩
  rfl

end Results

/-! ## Numbers

A count is the number of members as a double. The numbers are small enough to be exact, so the
counts add up to the number of series. -/

/-- The groups have as many members as there are series. -/
theorem sum_length_groupsOf (grouping : Grouping) (series : List Series) :
    ((groupsOf grouping series).map (·.members.length)).sum = series.length := by
  rw [← List.length_flatMap]
  exact flatMap_groupsOf_perm.length_eq

/-- The values of all points of results, as natural numbers. -/
def wholeValues (results : List Series) : List Nat :=
  results.flatMap fun s => s.points.map (·.value.toUInt64.toNat)

/-- **The counts add up to the number of series**, which is small enough that they are exact. -/
theorem sum_wholeValues_count {grouping : Grouping} {series : List Series} (hne : series ≠ [])
    (time : Instant) (hfew : series.length < 2 ^ 53) :
    (wholeValues (reduceGroups "count" grouping series time)).sum = series.length := by
  have hexact : ∀ g ∈ groupsOf grouping series,
      (floatOfWord g.members.length).toUInt64.toNat = g.members.length := by
    intro g hg
    have hle : g.members.length ≤ series.length := by
      rw [← sum_length_groupsOf grouping series]
      exact List.le_sum_of_mem (List.mem_map_of_mem hg)
    exact Double.toUInt64_ofInt (Nat.lt_of_le_of_lt hle hfew)
  have hvalues : wholeValues (reduceGroups "count" grouping series time) =
      (groupsOf grouping series).map (·.members.length) := by
    rw [reduceGroups_count hne time, wholeValues, List.flatMap_map, ← List.map_congr_left hexact]
    exact List.flatMap_pure_eq_map _ _
  rw [hvalues, sum_length_groupsOf]

/-- **An aggregation divides its series into groups and reduces each group to one result.** The
groups are the same for all aggregations, and a partition of the series; the results are those of
the groups, in the order of their keys, and so have different labels. Together the groups have as
many members as there are series, and so the counts, which are the numbers of members as doubles,
add up to the number of series wherever doubles can tell such numbers apart. -/
theorem aggregate_divides_series {grouping : Grouping} {series : List Series} (hne : series ≠ [])
    (hkeys : KeysTell (series.map (groupLabels grouping))) (time : Instant) :
    ∃ gs : List Group,
      Partitions grouping series gs ∧
      (∀ a : Aggregator, ∃ results, aggregate ⟨a.name, grouping⟩ series time = .ok results ∧
        List.Forall₂ (fun g out => Reduces time g a out) (gs.filter fun g => Answers a g) results ∧
        results.Pairwise fun s t => s.labels ≠ t.labels ∧ s.labels.key < t.labels.key) ∧
      (gs.map (·.members.length)).sum = series.length ∧
      (series.length < 2 ^ 53 →
        ∃ counts, aggregate ⟨"count", grouping⟩ series time = .ok counts ∧
          (wholeValues counts).sum = series.length) := by
  refine ⟨groupsOf grouping series, partitions_groupsOf hkeys, fun a => ?_,
    sum_length_groupsOf grouping series, fun hfew => ?_⟩
  · refine ⟨_, aggregate_eq_ok (name_mem_aggregations a) series time,
      reduceGroups_reduces hne a time, ?_⟩
    have hasc : ((reduceGroups a.name grouping series time).map (·.labels)).Pairwise fun l l' =>
        l.key < l'.key := by
      rw [labels_reduceGroups hne, List.pairwise_map]
      exact (groupsOf_ascending hkeys).filter _
    refine (List.pairwise_map.1 hasc).imp ?_
    intro s t hlt
    refine ⟨?_, hlt⟩
    intro heq
    rw [heq] at hlt
    exact String.lt_irrefl _ hlt
  · exact ⟨_, aggregate_eq_ok (name_mem_aggregations .count) series time,
      sum_wholeValues_count hne time hfew⟩

/-- Two series of one host with points in either, and between them one of another host that has no
point. -/
def hostSeries : List Series :=
  let a := Dictionary.empty.insert "host" "a"
  let b := Dictionary.empty.insert "host" "b"
  [⟨"up", b.insert "zone" "x", [⟨.ofNanos 1, 4⟩]⟩, ⟨"up", a, []⟩,
    ⟨"up", b.insert "zone" "y", [⟨.ofNanos 1, 3⟩, ⟨.ofNanos 2, 5⟩]⟩]

/-- The theorem for three series of two hosts. -/
theorem aggregate_hostSeries :
    (hostSeries ≠ [] ∧ KeysTell (hostSeries.map (groupLabels (.on ["host"])))) ∧
    ∃ gs : List Group,
      Partitions (.on ["host"]) hostSeries gs ∧
      (∀ a : Aggregator, ∃ results,
        aggregate ⟨a.name, .on ["host"]⟩ hostSeries (.ofNanos 9) = .ok results ∧
        List.Forall₂ (fun g out => Reduces (.ofNanos 9) g a out) (gs.filter fun g => Answers a g)
          results ∧
        results.Pairwise fun s t => s.labels ≠ t.labels ∧ s.labels.key < t.labels.key) ∧
      (gs.map (·.members.length)).sum = 3 ∧
      ∃ counts, aggregate ⟨"count", .on ["host"]⟩ hostSeries (.ofNanos 9) = .ok counts ∧
        (wholeValues counts).sum = 3 := by
  have hne : hostSeries ≠ [] := by simp [hostSeries]
  have hkeys : KeysTell (hostSeries.map (groupLabels (.on ["host"]))) :=
    .of_plain (by decide)
  obtain ⟨gs, hgs, hresults, hsum, hcounts⟩ := aggregate_divides_series hne hkeys (.ofNanos 9)
  exact ⟨⟨hne, hkeys⟩, gs, hgs, hresults, hsum, hcounts (by decide)⟩

end Telemetry.Series
