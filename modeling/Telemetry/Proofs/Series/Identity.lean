import Telemetry.Proofs.Labels
import Telemetry.Proofs.Series.Application

/-!
Which rows become one series, and which series one group of an aggregation.

Both go by the key of a label set, so both go exactly as far as keys tell label sets apart. What a
key tells is the list of its fragments (`Labels.key_eq_key_iff`): rows come into one series exactly
if the fragments of their labels are the same, and so it is with series and the labels of their
groups. Different labels are kept apart exactly where no two of them have the same fragments; label
sets without separators are such, and `commaInside` and `commaBetween` are two that are not.
-/

set_option autoImplicit false

namespace Telemetry.Series

open Dictionary (groups groupPositions membersAt)
open Time (Instant)

/-! ## Series by the positions of their rows -/

/-- The series that some rows become. -/
def ofMembers : List Row → Series
  | [] => default
  | first :: others =>
    { name := first.name
      labels := first.labels
      points := sortPoints ((first :: others).map Row.point) }

/-- The positions of the rows of each series. -/
def rowPositions (rows : List Row) : List (List Nat) := groupPositions (·.labels.key) rows

/-- Series of rows are their groups by key. -/
theorem ofRows_eq_groups (rows : List Row) :
    ofRows rows = (groups (·.labels.key) rows).map ofMembers := by
  rw [ofRows, groups, List.map_map]
  rfl

/-- Each group is made of the rows at its positions. -/
theorem ofRows_eq_map (rows : List Row) :
    ofRows rows = (rowPositions rows).map fun ps => ofMembers (membersAt rows ps) := by
  rw [ofRows_eq_groups, Dictionary.groups_eq_membersAt, List.map_map]
  rfl

/-! ## Aggregates by the positions of their series -/

/-- What some series of one group are reduced to. -/
def reduceMembers (operation : String) (grouping : Grouping) (time : Instant) :
    List Series → Option Series
  | [] => none
  | first :: others => reduceGroup operation time (grouping.labels first.labels) first others

/-- The labels of the group of a series. -/
def groupLabels (grouping : Grouping) (s : Series) : Labels := grouping.labels s.labels

/-- The positions of the series of each group. -/
def seriesPositions (grouping : Grouping) (series : List Series) : List (List Nat) :=
  groupPositions (fun s => (groupLabels grouping s).key) series

/-- Groups of series are reduced one by one. -/
theorem reduceGroups_eq_groups (operation : String) (grouping : Grouping) {series : List Series}
    (time : Instant) (h : series ≠ []) :
    reduceGroups operation grouping series time =
      (groups (fun s => (groupLabels grouping s).key) series).filterMap
        (reduceMembers operation grouping time) := by
  have hne : series.isEmpty = false := List.isEmpty_eq_false_iff.2 h
  rw [reduceGroups, hne, groups, List.filterMap_map]
  rfl

/-- An aggregation reduces the series at the positions of each group. -/
theorem aggregate_eq_filterMap (op : Aggregator) (grouping : Grouping) {series : List Series}
    (time : Instant) (h : series ≠ []) :
    aggregate ⟨op.name, grouping⟩ series time =
      .ok ((seriesPositions grouping series).filterMap fun ps =>
        reduceMembers op.name grouping time (membersAt series ps)) := by
  rw [aggregate_eq_ok (name_mem_aggregations op), reduceGroups_eq_groups _ grouping time h,
    Dictionary.groups_eq_membersAt, List.filterMap_map]
  rfl

/-! ## Who is together with whom -/

/-- Whether two positions are in one of several groups. -/
def Together (positions : List (List Nat)) (i j : Nat) : Prop :=
  ∃ ps ∈ positions, i ∈ ps ∧ j ∈ ps

/-- Whether label sets with the same fragments are the same among these. -/
def Separated (ls : List Labels) : Prop :=
  ∀ a ∈ ls, ∀ b ∈ ls, a.fragments = b.fragments → a = b

/-- Whether label sets with the same key are the same among these. -/
def KeysTell (ls : List Labels) : Prop :=
  ∀ a ∈ ls, ∀ b ∈ ls, a.key = b.key → a = b

/-- Keys tell plain label sets apart. -/
theorem KeysTell.of_plain {ls : List Labels} (h : ∀ l ∈ ls, l.Plain) : KeysTell ls := by
  intro a ha b hb hkey
  exact (h a ha).eq_of_key_eq (h b hb) hkey

section Keyed

variable {α : Type} (labels : α → Labels) (xs : List α)

/-- Two things are grouped together exactly if their labels have the same fragments. -/
theorem together_iff_fragments_eq {i j : Nat} (hi : i < xs.length) (hj : j < xs.length) :
    Together (groupPositions (fun x => (labels x).key) xs) i j ↔
      (labels xs[i]).fragments = (labels xs[j]).fragments :=
  (Dictionary.mem_groupPositions_iff hi hj).trans (Labels.key_eq_key_iff _ _)

/-- Grouping by the key is grouping by the labels exactly among separated label sets. -/
theorem together_iff_eq_iff_separated :
    (∀ (i j : Nat) (hi : i < xs.length) (hj : j < xs.length),
      Together (groupPositions (fun x => (labels x).key) xs) i j ↔ labels xs[i] = labels xs[j]) ↔
    Separated (xs.map labels) := by
  constructor
  · intro h a ha b hb hab
    obtain ⟨x, hx, rfl⟩ := List.mem_map.1 ha
    obtain ⟨y, hy, rfl⟩ := List.mem_map.1 hb
    obtain ⟨i, hi, rfl⟩ := List.getElem_of_mem hx
    obtain ⟨j, hj, rfl⟩ := List.getElem_of_mem hy
    exact (h i j hi hj).1 ((together_iff_fragments_eq labels xs hi hj).2 hab)
  · intro h i j hi hj
    rw [together_iff_fragments_eq labels xs hi hj]
    constructor
    · exact h _ (List.mem_map_of_mem (List.getElem_mem hi)) _
        (List.mem_map_of_mem (List.getElem_mem hj))
    · intro heq
      rw [heq]

end Keyed

/-- **What identifies a series.** Rows come into one series, and series into one group of an
aggregation, exactly if the labels that count have the same fragments. So different labels are kept
apart exactly where they are separated; in particular among plain label sets, which a key tells
apart. -/
theorem series_identity_of_fragments (a b : Labels) (rows : List Row) (op : Aggregator)
    (grouping : Grouping) (series : List Series) (time : Instant) :
    (a.key = b.key ↔ a.fragments = b.fragments) ∧
    (a.Plain → b.Plain → (a.key = b.key ↔ a = b)) ∧
    (ofRows rows = (rowPositions rows).map (fun ps => ofMembers (membersAt rows ps)) ∧
      (∀ (i j : Nat) (hi : i < rows.length) (hj : j < rows.length),
        Together (rowPositions rows) i j ↔
          rows[i].labels.fragments = rows[j].labels.fragments) ∧
      ((∀ (i j : Nat) (hi : i < rows.length) (hj : j < rows.length),
        Together (rowPositions rows) i j ↔ rows[i].labels = rows[j].labels) ↔
          Separated (rows.map (·.labels)))) ∧
    ((series ≠ [] →
        aggregate ⟨op.name, grouping⟩ series time =
          .ok ((seriesPositions grouping series).filterMap fun ps =>
            reduceMembers op.name grouping time (membersAt series ps))) ∧
      (∀ (i j : Nat) (hi : i < series.length) (hj : j < series.length),
        Together (seriesPositions grouping series) i j ↔
          (groupLabels grouping series[i]).fragments =
            (groupLabels grouping series[j]).fragments) ∧
      ((∀ (i j : Nat) (hi : i < series.length) (hj : j < series.length),
        Together (seriesPositions grouping series) i j ↔
          groupLabels grouping series[i] = groupLabels grouping series[j]) ↔
        Separated (series.map (groupLabels grouping)))) := by
  refine ⟨Labels.key_eq_key_iff a b, fun ha hb => ⟨ha.eq_of_key_eq hb, fun h => h ▸ rfl⟩,
    ⟨ofRows_eq_map rows, fun i j hi hj => ?_, ?_⟩,
    ⟨aggregate_eq_filterMap op grouping time, fun i j hi hj => ?_, ?_⟩⟩
  · exact together_iff_fragments_eq (·.labels) rows hi hj
  · exact together_iff_eq_iff_separated (·.labels) rows
  · exact together_iff_fragments_eq (groupLabels grouping) series hi hj
  · exact together_iff_eq_iff_separated (groupLabels grouping) series

/-! ## Two label sets with one key -/

/-- One label, whose value looks like a label behind a comma. -/
def commaInside : Labels := .ofList [("a", "1,b=2")]

/-- Two labels. -/
def commaBetween : Labels := .ofList [("a", "1"), ("b", "2")]

/-- Rows with different labels may come into one series, and series of different groups may be
counted as one. -/
theorem unequal_labels_grouped_together :
    commaInside ≠ commaBetween ∧
    ¬ (∀ (rows : List Row) (i j : Nat) (hi : i < rows.length) (hj : j < rows.length),
      Together (rowPositions rows) i j ↔ rows[i].labels = rows[j].labels) ∧
    ¬ (∀ (grouping : Grouping) (series : List Series) (i j : Nat) (hi : i < series.length)
      (hj : j < series.length), Together (seriesPositions grouping series) i j ↔
        groupLabels grouping series[i] = groupLabels grouping series[j]) := by
  have hne : commaInside ≠ commaBetween := by decide
  have hkey : commaInside.key = commaBetween.key := by
    rw [Labels.key_of_ascending (by decide), Labels.key_of_ascending (by decide)]
    rfl
  -- either law would make the two sets of labels equal, since they have one key
  refine ⟨hne, fun h => hne ?_, fun h => hne ?_⟩
  · have hrows := h [⟨"m", .epoch, 1, commaInside⟩, ⟨"m", .epoch, 2, commaBetween⟩] 0 1
      (by decide) (by decide)
    exact hrows.1 ((Dictionary.mem_groupPositions_iff (by decide) (by decide)).2 hkey)
  · have hseries := h (.without []) [⟨"m", commaInside, []⟩, ⟨"m", commaBetween, []⟩] 0 1
      (by decide) (by decide)
    have hall (labels : Labels) : Grouping.labels (.without []) labels = labels := by
      apply Dictionary.ext
      simp [Grouping.labels, Dictionary.filterKeys]
    have heq : groupLabels (.without []) ⟨"m", commaInside, []⟩ =
        groupLabels (.without []) ⟨"m", commaBetween, []⟩ := by
      refine hseries.1 ((Dictionary.mem_groupPositions_iff (by decide) (by decide)).2 ?_)
      show (Grouping.labels _ commaInside).key = (Grouping.labels _ commaBetween).key
      rw [hall, hall, hkey]
    simpa only [groupLabels, hall] using heq

end Telemetry.Series
