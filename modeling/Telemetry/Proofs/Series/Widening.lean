import Telemetry.Proofs.Query.Execution
import Telemetry.Proofs.Series.Collection

/-!
What becomes of rates and increases when a window is widened.

Both compare a point with another one that is not later. If the two are in a window, so is whatever
lies between them, so the last point of a kind in the window is also the last one of this kind
among all points (`latest?_of_filter`). Hence a point that has a rate or an increase within the
window has the same one outside of it, while other points may come to have one as well.

The points of a label set in the window are those that the label set has altogether, as far as they
are in the window (`exists_wider_series`). This is since rows are collected by key and sorted
stably, and needs keys to tell label sets apart.
-/

set_option autoImplicit false

namespace Telemetry.Series

open Time (Instant)

/-! ## Points in a window

A window is convex: what lies between two of its points lies in it. So if the point that a later
one is compared with lies in the narrower window, it is the same one in the wider window. -/

/-- Whether there are no gaps among the times of a kind. -/
def Convex (w : Instant → Prop) : Prop := ∀ a b c, w a → w c → a ≤ b → b ≤ c → w b

/-- The times between two instants, both included. -/
theorem convex_between (start stop : Instant) : Convex fun t => start ≤ t ∧ t ≤ stop := by
  intro a b c ha hc hab hbc
  exact ⟨Instant.le_trans ha.1 hab, Instant.le_trans hbc hc.2⟩

section Window

variable {w : Instant → Prop} [DecidablePred w] (hw : Convex w) {points : List Point}
  (hasc : Ascending points)

include hw hasc

/-- **The last point of a kind in a window** is the last one altogether, if those of this kind are
not later than an instant of the window. -/
theorem latest?_of_filter {kind : Instant → Prop} [DecidablePred kind] {t : Instant} (ht : w t)
    (hkind : ∀ p ∈ points, kind p.time → p.time ≤ t) {b : Point}
    (h : latest? kind (points.filter fun p => w p.time) = some b) :
    latest? kind points = some b := by
  obtain ⟨k, hk⟩ := latest?_eq_some_iff.1 h
  obtain ⟨hb, pre, post, hsplit, -, hpost⟩ := isLatest_iff.1 hk
  obtain ⟨before, rest, rfl, -, hrest⟩ := List.filter_eq_append_iff.1 hsplit
  obtain ⟨gap, after, rfl, -, hbw, hafter⟩ := List.filter_eq_cons_iff.1 hrest
  apply latest?_eq_some_iff.2
  refine ⟨_, isLatest_iff.2 ⟨hb, before ++ gap, after, by simp, rfl, ?_⟩⟩
  intro p hp hkindp
  -- a later point of this kind would lie between two times of the window, and so in it
  have hle : b.time ≤ p.time := by
    have hrest := (List.pairwise_append.1 hasc).2.1
    exact List.rel_of_pairwise_cons (List.pairwise_append.1 hrest).2.1 hp
  have hpt : p.time ≤ t := hkind p (by simp [hp]) hkindp
  have hpw : w p.time := hw _ _ _ (of_decide_eq_true hbw) ht hle hpt
  have hmem : p ∈ post := by
    rw [← hafter]
    exact List.mem_filter.2 ⟨hp, decide_eq_true hpw⟩
  exact hpost p hmem hkindp

/-- A rate within a window is the rate among all points. -/
theorem rateOf_of_filter {range : Int} {p out : Point} (hp : w p.time)
    (h : rateOf range (points.filter fun p => w p.time) p = some out) :
    rateOf range points p = some out := by
  obtain ⟨k, b, hk, hle, rfl⟩ := rateOf_eq_some_iff.1 h
  have hbase := latest?_of_filter hw hasc hp (fun q _ hlt => Instant.le_of_lt hlt)
    (latest?_eq_some_iff.2 ⟨k, hk⟩)
  obtain ⟨k', hk'⟩ := latest?_eq_some_iff.1 hbase
  exact rateOf_eq_some_iff.2 ⟨k', b, hk', hle, rfl⟩

/-- An increase within a window is the increase among all points. -/
theorem increaseOf_of_filter (hleap : WithoutLeap points) {range : Int} (hrange : 0 < range)
    {p out : Point} (hp : p ∈ points.filter fun p => w p.time)
    (h : increaseOf range (points.filter fun p => w p.time) p = some out) :
    increaseOf range points p = some out := by
  rw [List.mem_filter, decide_eq_true_eq] at hp
  obtain ⟨k, b, hk, rfl⟩ := increaseOf_eq_some_iff.1 h
  have hearlier : ∀ q ∈ points, q.time.toNanos ≤ p.time.toNanos - range → q.time ≤ p.time := by
    intro q hq hle
    rw [Instant.le_iff_toNanos_le (hleap q hq) (hleap p hp.1)]
    omega
  have hbase := latest?_of_filter hw hasc hp.2 hearlier (latest?_eq_some_iff.2 ⟨k, hk⟩)
  obtain ⟨k', hk'⟩ := latest?_eq_some_iff.1 hbase
  exact increaseOf_eq_some_iff.2 ⟨k', b, hk', rfl⟩

end Window

/-! ## Series in a window -/

/-- Sorting and then leaving out is leaving out and then sorting. -/
theorem Sorts.filter {points source : List Point} (h : Sorts points source) (p : Point → Bool) :
    Sorts (points.filter p) (source.filter p) where
  perm := h.perm.filter p
  ascending := List.Pairwise.filter p h.ascending
  stable := by
    intro t
    rw [List.filter_comm, h.stable, List.filter_comm]

/-- **The series of a label set in a window** has those points of the series of this label set that
are in the window. -/
theorem exists_wider_series {w : Instant → Prop} [DecidablePred w] {rows : List Row}
    (hkeys : KeysTell (rows.map (·.labels))) {s : Series}
    (hs : s ∈ ofRows (rows.filter fun row => w row.time)) :
    ∃ s' ∈ ofRows rows, s'.labels = s.labels ∧
      s.points = s'.points.filter fun p => w p.time := by
  obtain ⟨⟨row, hhead, -, hlabels⟩, hpoints⟩ := mem_ofRows_iff.1 hs
  obtain ⟨hrow, -⟩ := mem_rowsOf.1 (List.mem_of_head? hhead)
  have hmem : row ∈ rows := (List.mem_filter.1 hrow).1
  obtain ⟨s', hs', hkey⟩ := exists_mem_ofRows hmem
  have hcollects := mem_ofRows_iff.1 hs'
  obtain ⟨row', hhead', -, hlabels'⟩ := hcollects.first
  obtain ⟨hmem', -⟩ := mem_rowsOf.1 (List.mem_of_head? hhead')
  have hsame : s'.labels = s.labels := by
    rw [hlabels, hlabels']
    apply hkeys _ (List.mem_map_of_mem hmem') _ (List.mem_map_of_mem hmem)
    rw [← hlabels', hkey]
  -- the rows of the key in the window are those of the key, as far as they are in the window
  have hsource : (rowsOf (rows.filter fun row => w row.time) s.labels.key).map Row.point =
      ((rowsOf rows s'.labels.key).map Row.point).filter fun p => w p.time := by
    rw [rowsOf, List.filter_comm, List.filter_map, hsame]
    rfl
  refine ⟨s', hs', hsame, ?_⟩
  rw [hsource] at hpoints
  exact hpoints.unique (hcollects.points.filter _) fun _ => rfl

/-! ## Changes of all points -/

/-- Between two points that have fitting times there are fewer nanoseconds than there are words. -/
theorem range_lt_of_increaseOf {range : Int} {points : List Point} {p out : Point}
    (hfits : ∀ p ∈ points, Text.Integer.fitsSigned64 p.time.toNanos = true) (hp : p ∈ points)
    (h : increaseOf range points p = some out) : range < 0x10000000000000000 := by
  obtain ⟨k, b, hk, -⟩ := increaseOf_eq_some_iff.1 h
  have hpfits := hfits p hp
  have hbfits := hfits b (List.mem_of_getElem? hk.get)
  have hearlier : b.time.toNanos ≤ p.time.toNanos - range := hk.holds
  rw [Text.Integer.fitsSigned64, decide_eq_true_eq] at hpfits hbfits
  omega

/-! ## Results for rows

A result is followed from the rows through the series to the points of one label set. That the
subtraction at each point succeeds is part of it. -/

/-- Whether a function makes a series with these labels and points of some rows. -/
def Yields (f : String) (range : Int) (time : Instant) (rows : List Row) (labels : Labels)
    (points : List Point) : Prop :=
  ∃ out, apply f (ofRows rows) (some range) time = .ok out ∧
    ∃ s ∈ out, s.labels = labels ∧ s.points = points

section Rows

variable {rows : List Row} {range : Int} {time : Instant}

/-- The points of a series of rows ascend. -/
theorem ascending_of_mem_ofRows {s : Series} (hs : s ∈ ofRows rows) : Ascending s.points :=
  (mem_ofRows_iff.1 hs).points.ascending

/-- What is true of the times of all rows is true of the times of all points. -/
theorem forall_points_of_forall_rows {q : Instant → Prop} (h : ∀ row ∈ rows, q row.time)
    {s : Series} (hs : s ∈ ofRows rows) : ∀ p ∈ s.points, q p.time := by
  intro p hp
  obtain ⟨row, hrow, rfl⟩ := exists_point_ofRows_iff.1 ⟨s, hs, p, hp, rfl⟩
  exact h row hrow

/-- The rates of series of rows, point by point. -/
theorem apply_rate (hleap : ∀ row ∈ rows, row.time.isLeap = false) :
    apply "rate" (ofRows rows) (some range) time =
      .ok ((ofRows rows).map (withChanges (rateOf range))) := by
  apply congrArg Except.ok
  apply List.map_congr_left
  intro s hs
  exact rate_eq_withChanges (ascending_of_mem_ofRows hs)
    (forall_points_of_forall_rows (q := (Instant.isLeap · = false)) hleap hs)

/-- The increases of series of rows, point by point. -/
theorem apply_increase (hleap : ∀ row ∈ rows, row.time.isLeap = false) (hrange : 0 < range)
    (hback : ∀ row ∈ rows, (row.time.minus? range).isSome = true) :
    apply "increase" (ofRows rows) (some range) time =
      .ok ((ofRows rows).map (withChanges (increaseOf range))) := by
  apply Fallible.mapM_eq_ok_iff.2
  rw [List.forall₂_map_right_iff, List.forall₂_same]
  intro s hs
  exact increase_eq_withChanges (ascending_of_mem_ofRows hs)
    (forall_points_of_forall_rows (q := (Instant.isLeap · = false)) hleap hs)
    (forall_points_of_forall_rows (q := fun t => (t.minus? range).isSome = true) hback hs) hrange

/-- Where there are increases, the range can be subtracted from the times of all rows. -/
theorem Yields.minus?_isSome {labels : Labels} {points : List Point}
    (h : Yields "increase" range time rows labels points) :
    ∀ row ∈ rows, (row.time.minus? range).isSome = true := by
  obtain ⟨out, hout, -⟩ := h
  intro row hrow
  by_contra hnone
  rw [Bool.not_eq_true, Option.isSome_eq_false_iff, Option.isNone_iff_eq_none] at hnone
  have herror : apply "increase" (ofRows rows) (some range) time = .error .beyondRange :=
    apply_eq_beyondRange_iff.2
      ⟨rfl, range, rfl, exists_point_ofRows_iff.2 ⟨row, hrow, hnone⟩⟩
  rw [herror] at hout
  cases hout

/-- A function that puts changes in the place of points yields the changes of each series. -/
theorem yields_iff {f : String} {change : List Point → Point → Option Point}
    (happly : apply f (ofRows rows) (some range) time =
      .ok ((ofRows rows).map (withChanges change)))
    {labels : Labels} {points : List Point} :
    Yields f range time rows labels points ↔
      ∃ s ∈ ofRows rows, s.labels = labels ∧ s.points.filterMap (change s.points) = points := by
  unfold Yields
  rw [happly]
  constructor
  · rintro ⟨_, ⟨⟩, s', hs', hlabels, rfl⟩
    obtain ⟨s, hs, rfl⟩ := List.mem_map.1 hs'
    exact ⟨s, hs, hlabels, rfl⟩
  · rintro ⟨s, hs, hlabels, rfl⟩
    exact ⟨_, rfl, _, List.mem_map_of_mem hs, hlabels, rfl⟩

end Rows

/-! ## Wider windows

What holds for rate and increase alike is stated once: a change that is kept for each series is
kept for the rows. -/

/-- What a function that leaves members out makes of a list is a part of what another one makes of
it that agrees with the first one where that leaves none out. -/
theorem filterMap_sublist {α β : Type} {f g : α → Option β} {xs : List α}
    (h : ∀ x ∈ xs, ∀ y, f x = some y → g x = some y) :
    (xs.filterMap f).Sublist (xs.filterMap g) := by
  induction xs with
  | nil => exact .slnil
  | cons x xs ih =>
    have hrest := ih fun x' hx' => h x' (List.mem_cons_of_mem _ hx')
    cases hf : f x with
    | none =>
      rw [List.filterMap_cons_none hf]
      exact hrest.trans ((List.sublist_cons_self x xs).filterMap g)
    | some y =>
      rw [List.filterMap_cons_some hf, List.filterMap_cons_some (h x List.mem_cons_self y hf)]
      exact hrest.cons_cons y

section Widen

variable {w : Instant → Prop} [DecidablePred w] (hw : Convex w) {rows : List Row}
  (hkeys : KeysTell (rows.map (·.labels))) (hleap : ∀ row ∈ rows, row.time.isLeap = false)
  {range : Int} {time : Instant} (time' : Instant) {labels : Labels} {points : List Point}

include hkeys hleap

omit hw in
/-- Changes in a window that are the same among all points are still there when the window is
widened. -/
theorem Yields.widen {f : String} {change : List Point → Point → Option Point}
    (hnarrow : apply f (ofRows (rows.filter fun row => w row.time)) (some range) time =
      .ok ((ofRows (rows.filter fun row => w row.time)).map (withChanges change)))
    (hwide : apply f (ofRows rows) (some range) time' =
      .ok ((ofRows rows).map (withChanges change)))
    (hchange : ∀ points, Ascending points → WithoutLeap points →
      ∀ p ∈ points.filter (fun p => w p.time), ∀ out,
        change (points.filter fun p => w p.time) p = some out → change points p = some out)
    (h : Yields f range time (rows.filter fun row => w row.time) labels points) :
    ∃ points', Yields f range time' rows labels points' ∧ points.Sublist points' := by
  obtain ⟨s, hs, rfl, rfl⟩ := (yields_iff hnarrow).1 h
  obtain ⟨s', hs', hlabels, hpoints⟩ := exists_wider_series hkeys hs
  have hsame := hchange s'.points (ascending_of_mem_ofRows hs')
    (forall_points_of_forall_rows (q := (Instant.isLeap · = false)) hleap hs')
  refine ⟨_, (yields_iff hwide).2 ⟨s', hs', hlabels, rfl⟩, ?_⟩
  rw [hpoints]
  exact (filterMap_sublist hsame).trans (List.filter_sublist.filterMap _)

include hw

/-- **Rates in a window are still there when it is widened.** -/
theorem Yields.widen_rate
    (h : Yields "rate" range time (rows.filter fun row => w row.time) labels points) :
    ∃ points', Yields "rate" range time' rows labels points' ∧ points.Sublist points' := by
  have hnarrow : ∀ row ∈ rows.filter (fun row => w row.time), row.time.isLeap = false :=
    fun row hrow => hleap row (List.mem_filter.1 hrow).1
  apply h.widen hkeys hleap time' (apply_rate hnarrow) (apply_rate hleap)
  intro points hasc _ p hp out hout
  exact rateOf_of_filter hw hasc (of_decide_eq_true (List.mem_filter.1 hp).2) hout

/-- **Increases in a window are still there when it is widened**, if there are any. Then there are
two points in the window that are at least the range apart, so that the range can be subtracted from
all times that fit a word. -/
theorem Yields.widen_increase
    (hfits : ∀ row ∈ rows, Text.Integer.fitsSigned64 row.time.toNanos = true)
    (hrange : 0 < range)
    (h : Yields "increase" range time (rows.filter fun row => w row.time) labels points)
    (hne : points ≠ []) :
    ∃ points', Yields "increase" range time' rows labels points' ∧ points.Sublist points' := by
  have hin : ∀ row ∈ rows.filter (fun row => w row.time), row ∈ rows :=
    fun row hrow => (List.mem_filter.1 hrow).1
  have hnarrow : apply "increase" (ofRows (rows.filter fun row => w row.time)) (some range) time =
      .ok ((ofRows (rows.filter fun row => w row.time)).map (withChanges (increaseOf range))) :=
    apply_increase (fun row hrow => hleap row (hin row hrow)) hrange h.minus?_isSome
  -- there is an increase, so the range lies between two points of the window
  have hback : ∀ row ∈ rows, (row.time.minus? range).isSome = true := by
    obtain ⟨s, hs, -, rfl⟩ := (yields_iff hnarrow).1 h
    obtain ⟨out, hout⟩ := List.exists_mem_of_ne_nil _ hne
    obtain ⟨p, hp, hchange⟩ := List.mem_filterMap.1 hout
    have hpoints : ∀ p ∈ s.points, Text.Integer.fitsSigned64 p.time.toNanos = true :=
      forall_points_of_forall_rows (q := fun t => Text.Integer.fitsSigned64 t.toNanos = true)
        (fun row hrow => hfits row (hin row hrow)) hs
    have hlt := range_lt_of_increaseOf hpoints hp hchange
    intro row hrow
    exact Instant.minus?_isSome_of_fits (hfits row hrow) (Int.le_of_lt hrange) hlt
  apply h.widen hkeys hleap time' hnarrow (apply_increase hleap hrange hback)
  intro points hasc hleap p hp out hout
  exact increaseOf_of_filter hw hasc hleap hrange hp hout

end Widen

end Telemetry.Series
