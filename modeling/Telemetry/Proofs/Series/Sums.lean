import Mathlib.Data.List.Induction
import Telemetry.Proofs.Series.Change
import Telemetry.Series.Aggregate

/-!
Sums and means by time, time by time.

The totals of a group are built up member by member, and for each member point by point. What is
proved is what they hold of each single time: the values that the members have there, one value at
most for each member, folded from zero in the order of the members (`totalAt?_totals`).

The step is the addition of one point. It changes the total at its own time and no other one
(`totalAt?_addPoint`), and it keeps the totals in ascending order. So does a whole member, of whose
points only the first of each time is added (`firstAt?_firstAtTime`).
-/

set_option autoImplicit false

namespace Telemetry.Series

open Time (Instant)

/-! ## Values at a time

What each member has at a time is its first value there. The sum over a group is compared with the
values of all members that have one, in the order of the members. -/

/-- The first of some points at a time. -/
def firstAt? (t : Instant) (points : List Point) : Option Point :=
  points.find? fun p => p.time = t

/-- The values that the first points of some series at a time have, in the order of the series. -/
def valuesAt (t : Instant) (members : List Series) : List Float :=
  members.filterMap fun s => (firstAt? t s.points).map (·.value)

/-- Values added up from the left, starting from zero. -/
def sumOf (values : List Float) : Float := values.foldl (· + ·) 0.0

/-- The first point at an instant is the first of all, or one behind it. -/
theorem firstAt?_cons (t : Instant) (p : Point) (points : List Point) :
    firstAt? t (p :: points) = if p.time = t then some p else firstAt? t points := by
  unfold firstAt?
  by_cases hp : p.time = t
  · rw [if_pos hp, List.find?_cons_of_pos (by simpa using hp)]
  · rw [if_neg hp, List.find?_cons_of_neg (by simpa using hp)]

theorem firstAt?_eq_none_iff {t : Instant} {points : List Point} :
    firstAt? t points = none ↔ ∀ p ∈ points, p.time ≠ t := by
  simp [firstAt?]

/-- There are values at a time exactly if one of the series has a point there. -/
theorem valuesAt_ne_nil_iff {t : Instant} {members : List Series} :
    valuesAt t members ≠ [] ↔ ∃ s ∈ members, ∃ p ∈ s.points, p.time = t := by
  rw [valuesAt, ne_eq, List.filterMap_eq_nil_iff]
  simp only [Option.map_eq_none_iff, firstAt?_eq_none_iff]
  push Not
  rfl

/-- The last series adds its value at the right end, if it has one. -/
theorem valuesAt_concat (t : Instant) (members : List Series) (s : Series) :
    valuesAt t (members ++ [s]) =
      match firstAt? t s.points with
      | none => valuesAt t members
      | some p => valuesAt t members ++ [p.value] := by
  rw [valuesAt, List.filterMap_append, ← valuesAt]
  cases hfirst : firstAt? t s.points with
  | none => simp [hfirst]
  | some p => simp [hfirst]

/-! ## Points of one member

A member counts once at each time: of several points at one time the first is kept. -/

/-- Behind a point of the last time, the points that are kept are later than that, and strictly
ascending. -/
theorem firstAtTime_go_ascending {last : Instant} {points : List Point} (hasc : Ascending points)
    (hlast : ∀ p ∈ points, last ≤ p.time) :
    (∀ p ∈ firstAtTime.go last points, last < p.time) ∧
      (firstAtTime.go last points).Pairwise fun a b => a.time < b.time := by
  induction points generalizing last with
  | nil => exact ⟨nofun, .nil⟩
  | cons p points ih =>
    obtain ⟨hfirst, hasc⟩ := List.pairwise_cons.1 hasc
    unfold firstAtTime.go
    -- a point of the same time as the last one is passed over, so what is kept is strictly later
    by_cases hp : p.time = last
    · rw [if_pos hp]
      exact ih hasc fun q hq => hlast q (List.mem_cons_of_mem _ hq)
    · rw [if_neg hp]
      obtain ⟨hlater, hstrict⟩ := ih hasc hfirst
      have hlt : last < p.time :=
        Instant.lt_of_le_of_ne (hlast p List.mem_cons_self) fun h => hp h.symm
      refine ⟨?_, List.pairwise_cons.2 ⟨hlater, hstrict⟩⟩
      intro q hq
      rcases List.mem_cons.1 hq with rfl | hq
      · exact hlt
      · exact Instant.lt_trans hlt (hlater q hq)

/-- Of ascending points the first of each time are strictly ascending. -/
theorem firstAtTime_ascending {points : List Point} (hasc : Ascending points) :
    (firstAtTime points).Pairwise fun a b => a.time < b.time := by
  cases points with
  | nil => exact .nil
  | cons p points =>
    obtain ⟨hfirst, hasc⟩ := List.pairwise_cons.1 hasc
    obtain ⟨hlater, hstrict⟩ := firstAtTime_go_ascending hasc hfirst
    exact List.pairwise_cons.2 ⟨hlater, hstrict⟩

/-- Leaving out the points at one instant leaves the first ones at the others. -/
theorem firstAt?_firstAtTime_go {last t : Instant} (ht : last ≠ t) (points : List Point) :
    firstAt? t (firstAtTime.go last points) = firstAt? t points := by
  induction points generalizing last with
  | nil => rfl
  | cons p points ih =>
    unfold firstAtTime.go
    by_cases hp : p.time = last
    · have hne : p.time ≠ t := fun h => ht (hp.symm.trans h)
      rw [if_pos hp, ih ht, firstAt?_cons, if_neg hne]
    · rw [if_neg hp, firstAt?_cons, firstAt?_cons]
      by_cases hpt : p.time = t
      · rw [if_pos hpt, if_pos hpt]
      · rw [if_neg hpt, if_neg hpt, ih hpt]

/-- Leaving out the repetitions of a time leaves the first point of each time. -/
theorem firstAt?_firstAtTime (points : List Point) (t : Instant) :
    firstAt? t (firstAtTime points) = firstAt? t points := by
  cases points with
  | nil => rfl
  | cons p points =>
    unfold firstAtTime
    rw [firstAt?_cons, firstAt?_cons]
    by_cases hp : p.time = t
    · rw [if_pos hp, if_pos hp]
    · rw [if_neg hp, if_neg hp, firstAt?_firstAtTime_go hp]

/-! ## Adding a point

The totals are kept ascending by time. A point is added to the total of its time or opens one in
its place, and no other total changes. -/

/-- Whether totals are in strictly ascending order of time. -/
def AscendingTotals (ts : List Total) : Prop := ts.Pairwise fun a b => a.time < b.time

/-- The total at a time. -/
def totalAt? (t : Instant) (ts : List Total) : Option Total := ts.find? fun x => x.time = t

/-- The total at a time with one more value, from the total there was before, if any. -/
def totalWith (t : Instant) (value : Float) : Option Total → Total
  | none => ⟨t, 0.0 + value, 1⟩
  | some x => ⟨t, x.sum + value, x.terms + 1⟩

/-- The total at an instant is the first one, or one behind it. -/
theorem totalAt?_cons (t : Instant) (x : Total) (ts : List Total) :
    totalAt? t (x :: ts) = if x.time = t then some x else totalAt? t ts := by
  unfold totalAt?
  by_cases hx : x.time = t
  · rw [if_pos hx, List.find?_cons_of_pos (by simpa using hx)]
  · rw [if_neg hx, List.find?_cons_of_neg (by simpa using hx)]

theorem totalAt?_eq_none_iff {t : Instant} {ts : List Total} :
    totalAt? t ts = none ↔ ∀ x ∈ ts, x.time ≠ t := by
  simp [totalAt?]

/-- Adding a point makes totals at no other instants than it and those there were. -/
theorem time_of_mem_addPoint {p : Point} {ts : List Total} {x : Total} (h : x ∈ addPoint p ts) :
    x.time = p.time ∨ ∃ y ∈ ts, y.time = x.time := by
  induction ts with
  | nil =>
    rw [addPoint, List.mem_singleton] at h
    exact .inl (h ▸ rfl)
  | cons y ts ih =>
    unfold addPoint at h
    split at h
    · rcases List.mem_cons.1 h with rfl | h
      · exact .inl rfl
      · exact .inr ⟨x, h, rfl⟩
    · split at h
      next heq =>
        rcases List.mem_cons.1 h with rfl | h
        · exact .inl heq.symm
        · exact .inr ⟨x, List.mem_cons_of_mem _ h, rfl⟩
      next =>
        rcases List.mem_cons.1 h with rfl | h
        · exact .inr ⟨_, List.mem_cons_self, rfl⟩
        · obtain hp | ⟨z, hz, htime⟩ := ih h
          · exact .inl hp
          · exact .inr ⟨z, List.mem_cons_of_mem _ hz, htime⟩

/-- The totals behind a later point are later too. -/
theorem AscendingTotals.later {x : Total} {ts : List Total} (h : AscendingTotals (x :: ts))
    {t : Instant} (hlt : t < x.time) : ∀ y ∈ x :: ts, t < y.time := by
  intro y hy
  rcases List.mem_cons.1 hy with rfl | hy
  · exact hlt
  · exact Instant.lt_trans hlt (List.rel_of_pairwise_cons h hy)

/-- Totals still ascend after a point is added. -/
theorem AscendingTotals.addPoint {ts : List Total} (h : AscendingTotals ts) (p : Point) :
    AscendingTotals (addPoint p ts) := by
  induction ts with
  | nil => exact List.pairwise_singleton _ _
  | cons x ts ih =>
    obtain ⟨hx, hts⟩ := List.pairwise_cons.1 h
    unfold Series.addPoint
    -- the point opens a total before this one, is added to it, or goes further on
    by_cases hlt : p.time < x.time
    · rw [if_pos hlt]
      exact List.pairwise_cons.2 ⟨h.later hlt, h⟩
    · rw [if_neg hlt]
      by_cases heq : p.time = x.time
      · rw [if_pos heq]
        exact List.pairwise_cons.2 ⟨hx, hts⟩
      · rw [if_neg heq]
        refine List.pairwise_cons.2 ⟨?_, ih hts⟩
        intro y hy
        -- the times behind this total are that of the point and those from before
        obtain hp | ⟨z, hz, htime⟩ := time_of_mem_addPoint hy
        · rw [hp]
          exact Instant.lt_of_le_of_ne (Instant.le_of_not_lt hlt) fun h => heq h.symm
        · rw [← htime]
          exact hx z hz

/-- **A point adds its value to the total at its own time**, and leaves all other totals alone. -/
theorem totalAt?_addPoint {ts : List Total} (h : AscendingTotals ts) (p : Point) (t : Instant) :
    totalAt? t (addPoint p ts) =
      if p.time = t then some (totalWith t p.value (totalAt? t ts)) else totalAt? t ts := by
  induction ts with
  | nil =>
    unfold addPoint
    rw [totalAt?_cons]
    by_cases ht : p.time = t
    · rw [if_pos ht, if_pos ht, ht]
      rfl
    · rw [if_neg ht, if_neg ht]
  | cons x ts ih =>
    obtain ⟨-, hts⟩ := List.pairwise_cons.1 h
    unfold addPoint
    -- the cases are those of the insertion, and for each one whether the time asked for is that
    -- of the point
    by_cases hlt : p.time < x.time
    · rw [if_pos hlt, totalAt?_cons]
      by_cases ht : p.time = t
      · -- all totals are later, so this is the first one of its time
        have hnone : totalAt? t (x :: ts) = none := by
          apply totalAt?_eq_none_iff.2
          intro y hy
          rw [← ht]
          exact (Instant.ne_of_lt (h.later hlt y hy)).symm
        rw [if_pos ht, if_pos ht, hnone, ht]
        rfl
      · rw [if_neg ht, if_neg ht]
    · rw [if_neg hlt]
      by_cases heq : p.time = x.time
      · rw [if_pos heq, totalAt?_cons, totalAt?_cons, heq]
        by_cases hxt : x.time = t
        · rw [if_pos hxt, if_pos hxt, if_pos hxt, hxt]
          rfl
        · rw [if_neg hxt, if_neg hxt, if_neg hxt]
      · rw [if_neg heq, totalAt?_cons, totalAt?_cons, ih hts]
        by_cases hxt : x.time = t
        · have ht : p.time ≠ t := fun ht => heq (ht.trans hxt.symm)
          rw [if_pos hxt, if_pos hxt, if_neg ht]
        · rw [if_neg hxt, if_neg hxt]

/-! ## Adding a member -/

/-- Adds points one after another. -/
def addPoints (points : List Point) (ts : List Total) : List Total :=
  points.foldl (fun acc p => addPoint p acc) ts

theorem AscendingTotals.addPoints {ts : List Total} (h : AscendingTotals ts)
    (points : List Point) : AscendingTotals (addPoints points ts) := by
  induction points generalizing ts with
  | nil => exact h
  | cons p points ih => exact ih (h.addPoint p)

/-- Points of different times add at most one value to each total. -/
theorem totalAt?_addPoints {points : List Point}
    (hstrict : points.Pairwise fun a b => a.time < b.time) {ts : List Total}
    (h : AscendingTotals ts) (t : Instant) :
    totalAt? t (addPoints points ts) =
      match firstAt? t points with
      | none => totalAt? t ts
      | some p => some (totalWith t p.value (totalAt? t ts)) := by
  induction points generalizing ts with
  | nil => rfl
  | cons p points ih =>
    obtain ⟨hp, hstrict⟩ := List.pairwise_cons.1 hstrict
    have hrest := ih hstrict (h.addPoint p)
    show totalAt? t (addPoints points (addPoint p ts)) = _
    rw [hrest, totalAt?_addPoint h, firstAt?_cons]
    by_cases ht : p.time = t
    · -- the later points are at other times
      have hnone : firstAt? t points = none := by
        apply firstAt?_eq_none_iff.2
        intro q hq
        rw [← ht]
        exact (Instant.ne_of_lt (hp q hq)).symm
      rw [hnone, if_pos ht, if_pos ht]
    · rw [if_neg ht, if_neg ht]

/-! ## Adding all members

The induction is on the members from the last one on, since a sum of doubles depends on the order
and grows at its end. -/

/-- The total of some values at a time; there is none of no values. -/
def totalOf? (t : Instant) (values : List Float) : Option Total :=
  if values = [] then none else some ⟨t, sumOf values, values.length⟩

/-- One more value is added at the right end. -/
theorem totalWith_totalOf? (t : Instant) (values : List Float) (v : Float) :
    some (totalWith t v (totalOf? t values)) = totalOf? t (values ++ [v]) := by
  have hsum : sumOf (values ++ [v]) = sumOf values + v := by
    unfold sumOf
    rw [List.foldl_append]
    rfl
  have hne : values ++ [v] ≠ [] := by simp
  unfold totalOf?
  rw [if_neg hne, hsum, List.length_append]
  by_cases hnil : values = []
  · rw [if_pos hnil, hnil]
    rfl
  · rw [if_neg hnil]
    rfl

/-- One more series adds its first points at each instant. -/
theorem totals_concat (members : List Series) (s : Series) :
    totals (members ++ [s]) = addPoints (firstAtTime s.points) (totals members) := by
  unfold totals
  rw [List.foldl_append]
  rfl

/-- The totals of several series ascend. -/
theorem ascending_totals (members : List Series) : AscendingTotals (totals members) := by
  -- on the series, from the last one on: each adds its points to totals that ascend
  -- members are added from the left, so the induction takes the last one away
  induction members using List.reverseRecOn with
  | nil => exact .nil
  | append_singleton members s ih =>
    rw [totals_concat]
    exact ih.addPoints _

/-- **The total at a time** is that of the values of the members there, in their order. -/
theorem totalAt?_totals {members : List Series} (hasc : ∀ s ∈ members, Ascending s.points)
    (t : Instant) : totalAt? t (totals members) = totalOf? t (valuesAt t members) := by
  induction members using List.reverseRecOn with
  | nil => rfl
  | append_singleton members s ih =>
    have hmembers := ih fun s' hs' => hasc s' (List.mem_append_left _ hs')
    have hs : Ascending s.points := hasc s (by simp)
    have hadd := totalAt?_addPoints (firstAtTime_ascending hs) (ascending_totals members) t
    rw [firstAt?_firstAtTime, hmembers] at hadd
    rw [totals_concat, hadd, valuesAt_concat]
    cases firstAt? t s.points with
    | none => rfl
    | some p => exact totalWith_totalOf? t _ p.value

/-- In totals that ascend, each is the one at its instant. -/
theorem totalAt?_eq_some_of_mem {ts : List Total} (h : AscendingTotals ts) {x : Total}
    (hx : x ∈ ts) : totalAt? x.time ts = some x := by
  induction ts with
  | nil => cases hx
  | cons y ts ih =>
    obtain ⟨hy, hts⟩ := List.pairwise_cons.1 h
    rw [totalAt?_cons]
    rcases List.mem_cons.1 hx with rfl | hx
    · rw [if_pos rfl]
    · rw [if_neg (Instant.ne_of_lt (hy x hx))]
      exact ih hts hx

/-- There is a total at a time exactly if there are values to be added up there. -/
theorem mem_times_totals {members : List Series} (hasc : ∀ s ∈ members, Ascending s.points)
    {t : Instant} : t ∈ (totals members).map (·.time) ↔ valuesAt t members ≠ [] := by
  have hnone : totalAt? t (totals members) = none ↔ valuesAt t members = [] := by
    rw [totalAt?_totals hasc, totalOf?]
    by_cases hnil : valuesAt t members = []
    · simp [hnil]
    · simp [hnil]
  rw [ne_eq, ← hnone, totalAt?_eq_none_iff, List.mem_map]
  push Not
  rfl

/-- The totals, time by time. -/
theorem totals_eq_map {members : List Series} (hasc : ∀ s ∈ members, Ascending s.points) :
    totals members = ((totals members).map (·.time)).map fun t =>
      ⟨t, sumOf (valuesAt t members), (valuesAt t members).length⟩ := by
  have hself : ∀ x ∈ totals members,
      Total.mk x.time (sumOf (valuesAt x.time members)) (valuesAt x.time members).length = x := by
    intro x hx
    have hat := totalAt?_eq_some_of_mem (ascending_totals members) hx
    rw [totalAt?_totals hasc, totalOf?, Option.ite_none_left_eq_some, Option.some.injEq] at hat
    exact hat.2
  rw [List.map_map]
  calc totals members = (totals members).map id := (List.map_id _).symm
    _ = _ := List.map_congr_left fun x hx => (hself x hx).symm

/-- **Sums and means by time.** In a group whose members have ascending points, the sums and the
means are at the same times, strictly ascending, which are all the times at which a member has a
point. At each time the sum is that of the values of the first points that members have there, added
up from zero in the order of the members, and the mean is this sum divided by the number of these
members, of which there is at least one. -/
theorem sums_and_means_by_time {members : List Series}
    (hasc : ∀ s ∈ members, Ascending s.points) :
    ∃ times : List Instant,
      times.Pairwise (· < ·) ∧
      (∀ t, t ∈ times ↔ ∃ s ∈ members, ∃ p ∈ s.points, p.time = t) ∧
      sumByTime members = times.map (fun t => ⟨t, sumOf (valuesAt t members)⟩) ∧
      meanByTime members = times.map (fun t =>
        ⟨t, sumOf (valuesAt t members) / floatOfWord (valuesAt t members).length⟩) ∧
      ∀ t ∈ times, 1 ≤ (valuesAt t members).length := by
  have htotals := totals_eq_map hasc
  refine ⟨(totals members).map (·.time), ?_, ?_, ?_, ?_, ?_⟩
  · exact List.pairwise_map.2 (ascending_totals members)
  · intro t
    rw [mem_times_totals hasc, valuesAt_ne_nil_iff]
  · rw [sumByTime]
    conv_lhs => rw [htotals, List.map_map]
    rfl
  · rw [meanByTime]
    conv_lhs => rw [htotals, List.map_map]
    rfl
  · intro t ht
    exact List.length_pos_iff.2 ((mem_times_totals hasc).1 ht)

/-- Three series, the first of which repeats a time, and the last of which has no point at it. -/
def unevenGroup : List Series :=
  [⟨"up", .empty, [⟨.ofNanos 1, 1⟩, ⟨.ofNanos 1, 100⟩, ⟨.ofNanos 3, 5⟩]⟩,
    ⟨"up", .empty, [⟨.ofNanos 1, 2⟩]⟩, ⟨"up", .empty, [⟨.ofNanos 2, 7⟩, ⟨.ofNanos 3, 8⟩]⟩]

/-- The theorem for two series of which one has a point more. -/
theorem sums_and_means_of_unevenGroup :
    (∀ s ∈ unevenGroup, Ascending s.points) ∧
    ∃ times : List Instant,
      times.Pairwise (· < ·) ∧
      (∀ t, t ∈ times ↔ ∃ s ∈ unevenGroup, ∃ p ∈ s.points, p.time = t) ∧
      sumByTime unevenGroup = times.map (fun t => ⟨t, sumOf (valuesAt t unevenGroup)⟩) ∧
      meanByTime unevenGroup = times.map (fun t =>
        ⟨t, sumOf (valuesAt t unevenGroup) / floatOfWord (valuesAt t unevenGroup).length⟩) ∧
      valuesAt (.ofNanos 1) unevenGroup = [1, 2] := by
  have hasc : ∀ s ∈ unevenGroup, Ascending s.points := by decide
  obtain ⟨times, hstrict, hmem, hsum, hmean, -⟩ := sums_and_means_by_time hasc
  exact ⟨hasc, times, hstrict, hmem, hsum, hmean, rfl⟩

end Telemetry.Series
