import Telemetry.Proofs.Fallible
import Telemetry.Series.Function

/-!
What it comes to when a function or an aggregation is applied to series.

A name is looked up in three places: in a list of functions and a list of aggregations before
anything is fetched, in the dispatch of `apply`, and in that of `reduceGroup`, whose last arm takes
any name that has come so far. Lists and dispatch are written down apart. They agree: the dispatch
has no arm for a name exactly if the lists refuse it (`apply_eq_unknown_iff`,
`aggregate_eq_error_iff`), and the names that come to `reduceGroup` are those of the five
aggregations (`mem_aggregations_iff`), of which each has an arm of its own.

What the dispatch of `apply` comes to is said once, with one case for each kind of name
(`dispatch_apply`). Proofs about `apply` go by these cases and do not open the dispatch again.
-/

set_option autoImplicit false

namespace Telemetry

open Time (Instant)

/-! ## Aggregations -/

/-- One of the five aggregations. -/
inductive Aggregator where
  | sum
  | avg
  | count
  | min
  | max
  deriving DecidableEq, Repr

/-- The name of an aggregation. -/
def Aggregator.name : Aggregator → String
  | .sum => "sum"
  | .avg => "avg"
  | .count => "count"
  | .min => "min"
  | .max => "max"

namespace Series

/-- The list of aggregations has the names of all five, and no other one. -/
theorem mem_aggregations_iff {operation : String} :
    operation ∈ aggregations ↔ ∃ a : Aggregator, operation = a.name := by
  constructor
  · intro h
    simp only [aggregations, List.mem_cons, List.not_mem_nil, or_false] at h
    rcases h with rfl | rfl | rfl | rfl | rfl
    exacts [⟨.sum, rfl⟩, ⟨.avg, rfl⟩, ⟨.count, rfl⟩, ⟨.min, rfl⟩, ⟨.max, rfl⟩]
  · rintro ⟨a, rfl⟩
    cases a <;> decide

/-- The name of an aggregation is listed. -/
theorem name_mem_aggregations (a : Aggregator) : a.name ∈ aggregations :=
  mem_aggregations_iff.2 ⟨a, rfl⟩

/-- A name that is listed passes, and only such a name does. -/
theorem ensureAggregation_eq_ok_iff {operation : String} :
    ensureAggregation operation = .ok () ↔ operation ∈ aggregations := by
  unfold ensureAggregation
  split <;> simp_all

/-- An aggregation is refused exactly if it is not listed. -/
theorem ensureAggregation_eq_error_iff {operation : String} {e : Error} :
    ensureAggregation operation = .error e ↔
      operation ∉ aggregations ∧ e = .unsupported (.aggregation operation) := by
  unfold ensureAggregation
  split <;> simp_all [eq_comm]

/-- A listed aggregation reduces the groups of its series. -/
theorem aggregate_eq_ok {a : Aggregation} (h : a.operation ∈ aggregations) (series : List Series)
    (time : Instant) :
    aggregate a series time = .ok (reduceGroups a.operation a.grouping series time) := by
  rw [aggregate, ensureAggregation_eq_ok_iff.2 h]
  rfl

/-- An aggregation fails exactly if it is not listed, with the error of the list. -/
theorem aggregate_eq_error_iff {a : Aggregation} {series : List Series} {time : Instant}
    {e : Error} :
    aggregate a series time = .error e ↔ ensureAggregation a.operation = .error e := by
  rw [aggregate, Fallible.bind_eq_error_iff, or_iff_left]
  rintro ⟨-, -, h⟩
  cases h

/-! ## Functions -/

/-- A name in either list passes, and only such a name does. -/
theorem ensureFunction_eq_ok_iff {name : String} :
    ensureFunction name = .ok () ↔ name ∈ functions ∨ name ∈ aggregations := by
  unfold ensureFunction
  split <;> simp_all

/-- A function is refused exactly if neither list has it. -/
theorem ensureFunction_eq_error_iff {name : String} {e : Error} :
    ensureFunction name = .error e ↔
      (name ∉ functions ∧ name ∉ aggregations) ∧ e = .unsupported (.function name) := by
  unfold ensureFunction
  split
  next h => exact iff_of_false nofun fun hnot => h.elim hnot.1.1 hnot.1.2
  next h => simp_all [eq_comm]

/-- What the dispatch of `apply` on a name comes to. -/
inductive Dispatch (series : List Series) (range : Option Int) (time : Instant) (name : String) :
    Except Error (List Series) → Prop where
  /-- The rates, with the range that they need. -/
  | rate (h : name = "rate") : Dispatch series range time name
      (requireRange name range >>= fun n => pure (series.map (Series.rate n)))
  /-- The increases, with the range that they need. -/
  | increase (h : name = "increase") : Dispatch series range time name
      (requireRange name range >>= fun n => series.mapM (Series.increase n))
  /-- A function of single points. -/
  | values (h : name ∈ functions) (hrate : name ≠ "rate") (hincrease : name ≠ "increase")
      (f : Point → Float) : Dispatch series range time name (.ok (mapValues f series))
  /-- An aggregation that makes one group of all series. -/
  | total (h : name ∈ aggregations) : Dispatch series range time name
      (.ok (reduceGroups name .none series time))
  /-- No arm at all. -/
  | unknown (h : name ∉ functions ∧ name ∉ aggregations) :
      Dispatch series range time name (.error (.unsupported (.function name)))

/-- **The dispatch of `apply`**: each listed name has its arm, and only the others have none. -/
theorem dispatch_apply (name : String) (series : List Series) (range : Option Int)
    (time : Instant) : Dispatch series range time name (apply name series range time) := by
  unfold apply
  split
  · exact .rate rfl
  · exact .increase rfl
  iterate 5 exact .values (by decide) (by decide) (by decide) _
  iterate 5
    rw [aggregate_eq_ok (by decide)]
    exact .total (by decide)
  next =>
    -- what has come here is none of the names above
    apply Dispatch.unknown
    simp_all [functions, aggregations]

/-! ## Increases -/

/-- The walk of `increase` fails exactly if the range cannot be subtracted from some point. -/
theorem increaseSteps_eq_error_iff {range : Int} {passed : Passed} {j : Nat} {points : List Point}
    {e : Error} :
    increaseSteps range passed j points = .error e ↔
      e = .beyondRange ∧ ∃ p ∈ points, p.time.minus? range = none := by
  induction points generalizing passed j with
  | nil => simp [increaseSteps]
  | cons p points ih =>
    rw [increaseSteps, List.exists_mem_cons_iff]
    cases hminus : p.time.minus? range with
    | none =>
      rw [and_iff_left (.inl rfl)]
      exact ⟨fun h => (Except.error.inj h).symm, fun h => h ▸ rfl⟩
    | some cutoff =>
      -- behind the subtraction only the walk over the other points can fail
      rw [or_iff_right (Option.some_ne_none _)]
      simp only [pure_bind]
      rw [Fallible.bind_eq_error_iff, ih, or_iff_left]
      rintro ⟨later, -, h⟩
      split at h <;> cases h

/-- An increase fails exactly if the range leads out of the calendar from one of its points. -/
theorem increase_eq_error_iff {range : Int} {s : Series} {e : Error} :
    increase range s = .error e ↔
      e = .beyondRange ∧ ∃ p ∈ s.points, p.time.minus? range = none := by
  rw [increase, Fallible.bind_eq_error_iff, increaseSteps_eq_error_iff, or_iff_left]
  rintro ⟨points, -, h⟩
  cases h

/-- Increases of several series fail exactly if that of one of them does. -/
theorem mapM_increase_eq_error_iff {range : Int} {series : List Series} {e : Error} :
    series.mapM (increase range) = .error e ↔
      e = .beyondRange ∧ ∃ s ∈ series, ∃ p ∈ s.points, p.time.minus? range = none := by
  constructor
  · intro h
    obtain ⟨s, hs, hfail⟩ := Fallible.exists_of_mapM_eq_error h
    obtain ⟨he, hp⟩ := increase_eq_error_iff.1 hfail
    exact ⟨he, s, hs, hp⟩
  · rintro ⟨rfl, s, hs, hp⟩
    have hfail := increase_eq_error_iff.2 ⟨rfl, hp⟩
    cases hall : series.mapM (increase range) with
    | error e =>
      obtain ⟨s', -, hfail'⟩ := Fallible.exists_of_mapM_eq_error hall
      rw [(increase_eq_error_iff.1 hfail').1]
    | ok _ =>
      obtain ⟨y, hy⟩ := Fallible.exists_mapM_eq_ok_iff.1 ⟨_, hall⟩ s hs
      rw [hfail] at hy
      cases hy

/-! ## Errors -/

/-- Whether a function is on the points of a range, and has no result without one. -/
def NeedsRange (name : String) : Prop := name = "rate" ∨ name = "increase"

/-- The ways in which a function has no result for some series. -/
inductive Failure (name : String) (series : List Series) (range : Option Int) : Error → Prop where
  /-- There is no such function. -/
  | unknown (h : name ∉ functions ∧ name ∉ aggregations) :
      Failure name series range (.unsupported (.function name))
  /-- It needs a range, and there is none. -/
  | range (hneeds : NeedsRange name) (h : range = none) :
      Failure name series range (.unsupported (.functionWithoutRange name))
  /-- It is `increase`, and the range cannot be subtracted from the time of some point. -/
  | time (hname : name = "increase") {n : Int} (hrange : range = some n)
      (h : ∃ s ∈ series, ∃ p ∈ s.points, p.time.minus? n = none) :
      Failure name series range .beyondRange

/-- **What can go wrong when a function is applied**: its name, its range, or the arithmetic on the
time of a point. -/
theorem apply_eq_error_iff {name : String} {series : List Series} {range : Option Int}
    {time : Instant} {e : Error} :
    apply name series range time = .error e ↔ Failure name series range e := by
  have hdispatch := dispatch_apply name series range time
  constructor
  -- each branch of the dispatch fails in at most one way
  · intro h
    rw [h] at hdispatch
    generalize hresult : (Except.error e : Except Error (List Series)) = result at hdispatch
    cases hdispatch with
    | rate hname =>
      cases range with
      | some n => cases hresult
      | none =>
        cases hresult
        exact .range (.inl hname) rfl
    | increase hname =>
      cases range with
      | some n =>
        obtain ⟨rfl, hpoint⟩ := mapM_increase_eq_error_iff.1 hresult.symm
        exact .time hname rfl hpoint
      | none =>
        cases hresult
        exact .range (.inr hname) rfl
    | values => cases hresult
    | total => cases hresult
    | unknown hname =>
      cases hresult
      exact .unknown hname
  · rintro (hname | ⟨rfl | rfl, rfl⟩ | ⟨rfl, rfl, hpoint⟩)
    · generalize apply name series range time = result at hdispatch
      cases hdispatch with
      | rate h => exact absurd (h ▸ by decide) hname.1
      | increase h => exact absurd (h ▸ by decide) hname.1
      | values h => exact absurd h hname.1
      | total h => exact absurd h hname.2
      | unknown => rfl
    · rfl
    · rfl
    · exact mapM_increase_eq_error_iff.2 ⟨rfl, hpoint⟩

/-- **The lists and the dispatch agree.** The dispatch has no arm for a name exactly if the lists
refuse it, whatever it is to be applied to, and the error is the same. -/
theorem apply_eq_unknown_iff {name name' : String} {series : List Series} {range : Option Int}
    {time : Instant} :
    apply name series range time = .error (.unsupported (.function name')) ↔
      ensureFunction name = .error (.unsupported (.function name')) := by
  rw [apply_eq_error_iff, ensureFunction_eq_error_iff]
  constructor
  · rintro ⟨h⟩
    exact ⟨h, rfl⟩
  · rintro ⟨h, ⟨⟩⟩
    exact .unknown h

end Series

end Telemetry
