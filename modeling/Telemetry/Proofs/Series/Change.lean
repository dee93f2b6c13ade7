import Telemetry.Proofs.Double
import Telemetry.Proofs.Time.Instant
import Telemetry.Series.Change

/-!
Which points `rate` and `increase` compare with each other.

Both walk over the points of a series once and carry along what they found last. What they compare a
point with is nevertheless what a search through all the points finds for it: the last point with an
earlier time, or the last one that is at least the range earlier. For `rate` this is since the point
just before is that last one, unless it has the same time, and then the base is still that of the
point before (`latest?_lt_append`). For `increase` it is since the cutoffs ascend like the points
do, and what one cutoff passes another one that is not earlier passes too (`advance_advance`).
-/

set_option autoImplicit false

namespace Telemetry.Series

open Time (Instant)

/-! ## The latest point of a kind

Both functions compare a point with the latest one of a kind: the latest earlier one, or the
latest old enough. This is stated by position, since two points may be equal. -/

/-- Whether `b` is the last of the points whose time is of a kind, and `k` its index. -/
structure IsLatest (kind : Instant → Prop) (points : List Point) (k : Nat) (b : Point) : Prop where
  get : points[k]? = some b
  holds : kind b.time
  greatest : ∀ i p, points[i]? = some p → kind p.time → i ≤ k

/-- The last of the points whose time is of a kind. -/
def latest? (kind : Instant → Prop) [DecidablePred kind] (points : List Point) : Option Point :=
  points.reverse.find? fun p => kind p.time

section Latest

variable {kind : Instant → Prop} {points : List Point} {k : Nat} {b : Point}

/-- The last point of a kind is one of that kind that none of that kind follows. -/
theorem isLatest_iff : IsLatest kind points k b ↔
    kind b.time ∧ ∃ pre post, points = pre ++ b :: post ∧ pre.length = k ∧
      ∀ p ∈ post, ¬ kind p.time := by
  constructor
  · rintro ⟨hget, hholds, hgreatest⟩
    obtain ⟨hlt, hb⟩ := List.getElem?_eq_some_iff.1 hget
    refine ⟨hholds, points.take k, points.drop (k + 1), ?_, List.length_take_of_le (by omega), ?_⟩
    · rw [← hb, ← List.drop_eq_getElem_cons hlt, List.take_append_drop]
    · intro p hp hkind
      obtain ⟨i, hi⟩ := List.mem_iff_getElem?.1 hp
      rw [List.getElem?_drop] at hi
      have hle := hgreatest _ _ hi hkind
      omega
  · rintro ⟨hholds, pre, post, rfl, rfl, hpost⟩
    refine ⟨by simp, hholds, fun i p hp hkind => Nat.not_lt.1 fun hlt => ?_⟩
    rw [List.getElem?_append_right (Nat.le_of_lt hlt), List.getElem?_cons,
      if_neg (by omega)] at hp
    exact hpost p (List.mem_of_getElem? hp) hkind

/-- There is at most one latest point of a kind. -/
theorem IsLatest.unique {l : Nat} {c : Point} (hb : IsLatest kind points k b)
    (hc : IsLatest kind points l c) : k = l ∧ b = c := by
  have hle := hc.greatest k b hb.get hb.holds
  have hge := hb.greatest l c hc.get hc.holds
  obtain rfl : k = l := Nat.le_antisymm hle hge
  exact ⟨rfl, Option.some.inj (hb.get.symm.trans hc.get)⟩

variable [DecidablePred kind]

/-- The search finds exactly the latest point. -/
theorem latest?_eq_some_iff : latest? kind points = some b ↔ ∃ k, IsLatest kind points k b := by
  simp only [latest?, List.find?_eq_some_iff_append, isLatest_iff]
  constructor
  · rintro ⟨hholds, post, pre, hpoints, hpost⟩
    refine ⟨_, of_decide_eq_true hholds, pre.reverse, post.reverse, ?_, rfl, fun p hp => ?_⟩
    · rw [← List.reverse_reverse points, hpoints]
      simp
    · simpa using hpost p (List.mem_reverse.1 hp)
  · rintro ⟨_, hholds, pre, post, rfl, -, hpost⟩
    refine ⟨decide_eq_true hholds, post.reverse, pre.reverse, by simp, fun p hp => ?_⟩
    simpa using hpost p (List.mem_reverse.1 hp)

/-- Points that are not of the kind do not matter behind it. -/
theorem latest?_append_of_not {post : List Point} (h : ∀ p ∈ post, ¬ kind p.time) :
    latest? kind (points ++ post) = latest? kind points := by
  have hnone : (post.reverse.find? fun p => decide (kind p.time)) = none := by
    simpa using h
  rw [latest?, List.reverse_append, List.find?_append, hnone, Option.none_or, latest?]

/-- The last point is the latest one if it is of the kind. -/
theorem latest?_concat :
    latest? kind (points ++ [b]) = if kind b.time then some b else latest? kind points := by
  rw [latest?, List.reverse_append, List.reverse_singleton, List.singleton_append, List.find?_cons,
    latest?]
  by_cases h : kind b.time <;> simp [h]

end Latest

/-! ## Ascending points

In ascending points the earlier ones are those at smaller positions, except for those at the same
time. A rate never compares two of the same time. -/

/-- Whether points ascend by time. -/
def Ascending (points : List Point) : Prop := points.Pairwise fun a b => a.time ≤ b.time

/-- Whether no point lies in a leap second. -/
def WithoutLeap (points : List Point) : Prop := ∀ p ∈ points, p.time.isLeap = false

instance (points : List Point) : Decidable (Ascending points) :=
  inferInstanceAs (Decidable (points.Pairwise _))

instance (points : List Point) : Decidable (WithoutLeap points) :=
  inferInstanceAs (Decidable (∀ p ∈ points, _))

/-- The last point before one of the points stands before it in the list. -/
theorem latest?_lt_of_ascending {pre post : List Point} {p : Point}
    (h : Ascending (pre ++ p :: post)) :
    latest? (· < p.time) (pre ++ p :: post) = latest? (· < p.time) pre := by
  apply latest?_append_of_not
  have hpost := (List.pairwise_append.1 h).2.1
  intro q hq
  rcases List.mem_cons.1 hq with rfl | hq
  · rw [Time.Instant.lt_iff]
    omega
  · exact Time.Instant.le_iff.1 (List.rel_of_pairwise_cons hpost hq)

/-- The last point before the next one is the current one, if it has an earlier time, and otherwise
that before the current one. -/
theorem latest?_lt_append {pre post : List Point} {before p : Point}
    (h : Ascending (pre ++ before :: p :: post)) :
    (if before.time < p.time then some before else latest? (· < before.time) pre) =
      latest? (· < p.time) (pre ++ [before]) := by
  rw [latest?_concat]
  by_cases hlt : before.time < p.time
  · rw [if_pos hlt, if_pos hlt]
  · have hle : before.time ≤ p.time :=
      List.rel_of_pairwise_cons (List.pairwise_append.1 h).2.1 List.mem_cons_self
    have heq : before.time = p.time :=
      Time.Instant.le_antisymm hle (Time.Instant.le_iff.2 hlt)
    rw [if_neg hlt, if_neg hlt, heq]

/-! ## Seconds

What divides is the distance in seconds as a double. It is positive for a positive distance, which
needs that neither the quotient nor its rounding comes to zero. -/

/-- The number of nanoseconds in a second, in its mantissa and exponent. -/
theorem unpack_1e9 : (1e9 : Float).toModel.unpack =
    .finite .positive 8388608000000000 (-23) (by decide) := rfl

/-- The number of milliseconds in a second, in its mantissa and exponent. -/
theorem unpack_1e3 : (1e3 : Float).toModel.unpack =
    .finite .positive 8796093022208000 (-43) (by decide) := rfl

/-- A positive length of time is a positive number of seconds. -/
theorem exists_atLeast_secondsOf {n : Int} (hn : 0 < n) :
    ∃ k, Double.AtLeast k (secondsOf n).toModel.unpack := by
  rw [secondsOf]
  -- the seconds are a quotient of nanoseconds, or of milliseconds where these do not fit a word
  by_cases hfits : Text.Integer.fitsSigned64 n = true
  · have hdiv := (Double.atLeast_ofInt hn).div (e := -23) (m := 8388608000000000) (by decide)
      (by decide) (by decide) (by decide)
    rw [← unpack_1e9] at hdiv
    have hpack := hdiv.unpack_pack (by decide)
    rw [if_pos hfits]
    exact ⟨_, hpack⟩
  · have hmillis : 0 < n.tdiv 1000000 := by
      rw [Int.tdiv_eq_ediv_of_nonneg (Int.le_of_lt hn)]
      simp only [Text.Integer.fitsSigned64, decide_eq_true_eq] at hfits
      omega
    have hdiv := (Double.atLeast_ofInt hmillis).div (e := -43) (m := 8796093022208000) (by decide)
      (by decide) (by decide) (by decide)
    rw [← unpack_1e3] at hdiv
    have hpack := hdiv.unpack_pack (by decide)
    rw [if_neg hfits]
    exact ⟨_, hpack⟩

/-- A positive length of time is a positive number of seconds. -/
theorem secondsOf_pos {n : Int} (hn : 0 < n) : 0.0 < secondsOf n :=
  (exists_atLeast_secondsOf hn).elim fun _ h => h.pos

theorem not_secondsOf_le_zero {n : Int} (hn : 0 < n) : ¬ secondsOf n ≤ 0.0 :=
  (exists_atLeast_secondsOf hn).elim fun _ h => h.not_le_zero

/-! ## Rate -/

/-- The rate at a point: the change per second since the last earlier one of all the points, if that
is within the range. -/
def rateOf (range : Int) (points : List Point) (p : Point) : Option Point :=
  match latest? (· < p.time) points with
  | none => none
  | some b =>
    let elapsed := p.time.toNanos - b.time.toNanos
    if elapsed ≤ range then some ⟨p.time, (p.value - b.value) / secondsOf elapsed⟩ else none

/-- There is a rate at a point exactly if the latest earlier point is no further back than the
range, and then it is the change since that one, per second. -/
theorem rateOf_eq_some_iff {range : Int} {points : List Point} {p out : Point} :
    rateOf range points p = some out ↔
      ∃ k b, IsLatest (· < p.time) points k b ∧ p.time.toNanos - b.time.toNanos ≤ range ∧
        out = ⟨p.time, (p.value - b.value) / secondsOf (p.time.toNanos - b.time.toNanos)⟩ := by
  rw [rateOf]
  constructor
  · intro h
    split at h
    next => cases h
    next b hb =>
      obtain ⟨k, hk⟩ := latest?_eq_some_iff.1 hb
      rw [Option.ite_none_right_eq_some] at h
      exact ⟨k, b, hk, h.1, (Option.some.inj h.2).symm⟩
  · rintro ⟨k, b, hk, hle, rfl⟩
    simp only [latest?_eq_some_iff.2 ⟨k, hk⟩, if_pos hle]

/-- Each step finds for its point what a search through all the points finds. -/
theorem rateSteps_eq_filterMap {range : Int} {pre points : List Point} {before : Point}
    (hasc : Ascending (pre ++ before :: points))
    (hleap : WithoutLeap (pre ++ before :: points)) :
    rateSteps range before (latest? (· < before.time) pre) points =
      points.filterMap (rateOf range (pre ++ before :: points)) := by
  induction points generalizing pre before with
  | nil => rfl
  | cons p points ih =>
    -- the points that were passed are now those up to `before`
    have hsplit : pre ++ before :: p :: points = (pre ++ [before]) ++ p :: points :=
      List.append_cons _ _ _
    have hnext := latest?_lt_append hasc
    rw [hsplit] at hasc hleap ⊢
    have hbase := latest?_lt_of_ascending hasc
    simp only [rateSteps, hnext, List.filterMap_cons, rateOf, hbase, ← ih hasc hleap]
    cases hlatest : latest? (· < p.time) (pre ++ [before]) with
    | none => rfl
    | some b =>
      obtain ⟨k, hk⟩ := latest?_eq_some_iff.1 hlatest
      have hb : b.time.isLeap = false :=
        hleap b (List.mem_append_left _ (List.mem_of_getElem? hk.get))
      have hp : p.time.isLeap = false :=
        hleap p (List.mem_append_right _ List.mem_cons_self)
      have hpos : 0 < p.time.toNanos - b.time.toNanos :=
        Int.sub_pos.2 ((Time.Instant.lt_iff_toNanos_lt hb hp).1 hk.holds)
      simp only [Time.Instant.since_of_not_leap hp hb, if_neg (not_secondsOf_le_zero hpos)]
      by_cases hle : p.time.toNanos - b.time.toNanos ≤ range
      · rw [if_neg (Int.not_lt.2 hle), if_pos hle]
      · rw [if_pos (Int.not_le.1 hle), if_neg hle]

/-- A series with the changes of its points in their place, as far as they have one. -/
def withChanges (change : List Point → Point → Option Point) (s : Series) : Series :=
  { s with points := s.points.filterMap (change s.points) }

/-- The walk puts the rates of the points in their place. -/
theorem rate_eq_withChanges {range : Int} {s : Series} (hasc : Ascending s.points)
    (hleap : WithoutLeap s.points) : rate range s = s.withChanges (rateOf range) := by
  unfold rate withChanges
  congr 1
  cases hpoints : s.points with
  | nil => rfl
  | cons p points =>
    rw [hpoints] at hasc hleap
    -- nothing stands before the first point, so it has no rate
    have hfirst : rateOf range (p :: points) p = none := by
      have hnone : latest? (· < p.time) ([] ++ p :: points) = latest? (· < p.time) [] :=
        latest?_lt_of_ascending hasc
      rw [List.nil_append] at hnone
      simp only [rateOf, hnone]
      rfl
    have hsteps : rateSteps range p (latest? (· < p.time) []) points =
        points.filterMap (rateOf range ([] ++ p :: points)) :=
      rateSteps_eq_filterMap hasc hleap
    rw [List.filterMap_cons, hfirst]
    exact hsteps

/-- **Rates compare each point with the last earlier one.** For ascending points without leap
seconds, and any range, a point has a rate exactly if there is a last one of those with an earlier
time and it is within the range. The rate is the change since then, divided by a positive number of
seconds. -/
theorem rate_compares_with_last_earlier {range : Int} {s : Series} (hasc : Ascending s.points)
    (hleap : WithoutLeap s.points) :
    rate range s = { s with points := s.points.filterMap (rateOf range s.points) } ∧
      (∀ p out, rateOf range s.points p = some out ↔
        ∃ k b, IsLatest (· < p.time) s.points k b ∧ p.time.toNanos - b.time.toNanos ≤ range ∧
          out = ⟨p.time, (p.value - b.value) / secondsOf (p.time.toNanos - b.time.toNanos)⟩) ∧
      ∀ p ∈ s.points, ∀ k b, IsLatest (· < p.time) s.points k b →
        0 < p.time.toNanos - b.time.toNanos ∧
          0.0 < secondsOf (p.time.toNanos - b.time.toNanos) := by
  refine ⟨rate_eq_withChanges hasc hleap, fun p out => rateOf_eq_some_iff, ?_⟩
  intro p hp k b hk
  have hb : b.time.isLeap = false := hleap b (List.mem_of_getElem? hk.get)
  have hpos : 0 < p.time.toNanos - b.time.toNanos :=
    Int.sub_pos.2 ((Time.Instant.lt_iff_toNanos_lt hb (hleap p hp)).1 hk.holds)
  exact ⟨hpos, secondsOf_pos hpos⟩

/-- Two points of the same time between two others. -/
def twice : Series where
  name := "twice"
  labels := .empty
  points := [⟨.ofNanos 0, 1⟩, ⟨.ofNanos 10000000000, 3⟩, ⟨.ofNanos 10000000000, 4⟩,
    ⟨.ofNanos 40000000000, 9⟩]

/-- Both of the points with the same time are compared with the first one, and the last point is too
far away from either. -/
theorem rate_twice :
    (Ascending twice.points ∧ WithoutLeap twice.points) ∧
      rate 20000000000 twice = { twice with
        points := [⟨.ofNanos 10000000000, (3 - 1) / secondsOf 10000000000⟩,
          ⟨.ofNanos 10000000000, (4 - 1) / secondsOf 10000000000⟩] } ∧
      0.0 < secondsOf 10000000000 := by
  have hasc : Ascending twice.points := by decide
  have hleap : WithoutLeap twice.points := by decide
  obtain ⟨hrate, -, hpos⟩ := @rate_compares_with_last_earlier 20000000000 twice hasc hleap
  have hbase : IsLatest (· < .ofNanos 10000000000) twice.points 0 ⟨.ofNanos 0, 1⟩ :=
    isLatest_iff.2 ⟨by decide, [], twice.points.tail, rfl, rfl, by decide⟩
  have hseconds := (hpos ⟨.ofNanos 10000000000, 3⟩ (by simp [twice]) _ _ hbase).2
  exact ⟨⟨hasc, hleap⟩, hrate, hseconds⟩

/-! ## Increase -/

/-- The increase at a point: the change since the last one of all the points that is at least the
range earlier. -/
def increaseOf (range : Int) (points : List Point) (p : Point) : Option Point :=
  (latest? (fun t => t.toNanos ≤ p.time.toNanos - range) points).map fun b =>
    ⟨p.time, p.value - b.value⟩

/-- There is an increase at a point exactly if some point is at least so old as the range, and
then it is the change since the latest of these. -/
theorem increaseOf_eq_some_iff {range : Int} {points : List Point} {p out : Point} :
    increaseOf range points p = some out ↔
      ∃ k b, IsLatest (fun t => t.toNanos ≤ p.time.toNanos - range) points k b ∧
        out = ⟨p.time, p.value - b.value⟩ := by
  rw [increaseOf, Option.map_eq_some_iff]
  constructor
  · rintro ⟨b, hb, rfl⟩
    obtain ⟨k, hk⟩ := latest?_eq_some_iff.1 hb
    exact ⟨k, b, hk, rfl⟩
  · rintro ⟨k, b, hk, rfl⟩
    exact ⟨b, latest?_eq_some_iff.2 ⟨k, hk⟩, rfl⟩

/-! ### Passing points

The loop of `increase` keeps a pointer to the last point it has passed and never moves it back.
Advancing to one instant and then to a later one is advancing to the later one. -/

/-- What passing points from the first one on leads to. -/
def Passed.upTo (cutoff : Instant) (points : List Point) : Passed :=
  .advance cutoff none 0 points

/-- **A later cutoff continues where an earlier one stopped**: it leads to the same as from the
first point on. -/
theorem advance_advance {c d : Instant} (h : c ≤ d) (base : Option (Nat × Point)) (count : Nat)
    (points : List Point) :
    Passed.advance d (Passed.advance c base count points).base
        (Passed.advance c base count points).count (Passed.advance c base count points).rest =
      Passed.advance d base count points := by
  induction points generalizing base count with
  | nil => rfl
  | cons p points ih =>
    by_cases hp : p.time ≤ c
    · have hlater : p.time ≤ d := Time.Instant.le_trans hp h
      simp only [Passed.advance, if_pos hp, if_pos hlater]
      exact ih _ _
    · simp only [Passed.advance, if_neg hp]

/-- Points that are not later than the cutoff are passed, and the next one that is stops it. -/
theorem advance_append {cutoff : Instant} {pre post : List Point}
    (hpre : ∀ p ∈ pre, p.time ≤ cutoff) (hpost : ∀ p ∈ post, ¬ p.time ≤ cutoff)
    (base : Option (Nat × Point)) (count : Nat) :
    Passed.advance cutoff base count (pre ++ post) =
      ⟨(pre.getLast?.map fun b => (count + pre.length - 1, b)).or base, count + pre.length,
        post⟩ := by
  induction pre generalizing base count with
  | nil =>
    match post with
    | [] => rfl
    | p :: post =>
      rw [List.nil_append, Passed.advance, if_neg (hpost p List.mem_cons_self)]
      rfl
  | cons p pre ih =>
    have hrest := ih (fun q hq => hpre q (List.mem_cons_of_mem _ hq)) (some (count, p)) (count + 1)
    rw [List.cons_append, Passed.advance, if_pos (hpre p List.mem_cons_self), hrest]
    rw [List.length_cons, Nat.add_right_comm, Nat.add_assoc, List.getLast?_cons]
    cases hlast : pre.getLast? with
    | none => simp [List.getLast?_eq_none_iff.1 hlast]
    | some b => simp

/-- Ascending points are those that are not later than a cutoff, and then the later ones. -/
theorem exists_append_of_ascending {points : List Point} (hasc : Ascending points)
    (cutoff : Instant) :
    ∃ pre post, points = pre ++ post ∧ (∀ p ∈ pre, p.time ≤ cutoff) ∧
      ∀ p ∈ post, ¬ p.time ≤ cutoff := by
  induction points with
  | nil => exact ⟨[], [], rfl, by simp, by simp⟩
  | cons p points ih =>
    rw [Ascending, List.pairwise_cons] at hasc
    obtain ⟨hfirst, hrest⟩ := hasc
    by_cases hp : p.time ≤ cutoff
    · obtain ⟨pre, post, rfl, hpre, hpost⟩ := ih hrest
      exact ⟨p :: pre, post, rfl, List.forall_mem_cons.2 ⟨hp, hpre⟩, hpost⟩
    · refine ⟨[], p :: points, rfl, by simp, List.forall_mem_cons.2 ⟨hp, fun q hq hle => ?_⟩⟩
      exact hp (Time.Instant.le_trans (hfirst q hq) hle)

/-- The last point passed is the last one that is not later than the cutoff. -/
theorem base_upTo_eq_some_iff {points : List Point} (hasc : Ascending points) {cutoff : Instant}
    {k : Nat} {b : Point} :
    (Passed.upTo cutoff points).base = some (k, b) ↔ IsLatest (· ≤ cutoff) points k b := by
  obtain ⟨pre, post, rfl, hpre, hpost⟩ := exists_append_of_ascending hasc cutoff
  rw [Passed.upTo, advance_append hpre hpost, Option.or_none, Nat.zero_add]
  rcases List.eq_nil_or_concat' pre with rfl | ⟨init, last, rfl⟩
  · -- nothing is passed, so no point is that early
    simp only [List.getLast?_nil, Option.map_none, reduceCtorEq, false_iff]
    exact fun h => hpost b (List.mem_of_getElem? h.get) h.holds
  · have hlast : IsLatest (· ≤ cutoff) ((init ++ [last]) ++ post) init.length last :=
      isLatest_iff.2 ⟨hpre last (by simp), init, post, by simp, rfl, hpost⟩
    rw [List.getLast?_concat, List.length_append, List.length_singleton, Nat.add_sub_cancel,
      Option.map_some, Option.some_inj, Prod.mk.injEq]
    constructor
    · rintro ⟨rfl, rfl⟩
      exact hlast
    · exact hlast.unique

/-! ### The loop

The pointer is where a search from the beginning would have put it, so each step of the loop is
the comparison with the latest point that is old enough. -/

/-- The instant that lies the range before a point. -/
def windowStart (range : Int) (p : Point) : Instant := p.time.shift (-range)

/-- Where the range can be subtracted, it leads to the start of the window. -/
theorem minus?_eq_windowStart {range : Int} {p : Point}
    (h : (p.time.minus? range).isSome = true) :
    p.time.minus? range = some (windowStart range p) :=
  Time.Instant.minus?_eq_some_of_isSome h

theorem isLeap_windowStart {range : Int} {p : Point} (hp : p.time.isLeap = false) :
    (windowStart range p).isLeap = false := by
  rw [windowStart, Time.Instant.shift_of_not_leap hp, Time.Instant.isLeap_ofNanos]

/-- The start of a window is the range earlier than its point. -/
theorem toNanos_windowStart {range : Int} {p : Point} (hp : p.time.isLeap = false) :
    (windowStart range p).toNanos = p.time.toNanos - range := by
  rw [windowStart, Time.Instant.shift_of_not_leap hp, Time.Instant.toNanos_ofNanos,
    Int.sub_eq_add_neg]

/-- What the loop has passed at each of its points. -/
def passes (range : Int) : Passed → List Point → List Passed
  | _, [] => []
  | passed, p :: points =>
    match p.time.minus? range with
    | none => []
    | some cutoff =>
      let passed := Passed.advance cutoff passed.base passed.count passed.rest
      passed :: passes range passed points

/-- What the loop makes of a point with index `j` and of the last point it has passed there. -/
def changeSince (j : Nat) (p : Point) : Option (Nat × Point) → Option Point
  | some (k, b) => if k < j then some ⟨p.time, p.value - b.value⟩ else none
  | none => none

/-- What is made of points does not depend on their positions. -/
theorem filterMap_zipIdx (f : Point → Option Point) (points : List Point) :
    (points.zipIdx.filterMap fun q => f q.1) = points.filterMap f := by
  calc (points.zipIdx.filterMap fun q => f q.1) = (points.zipIdx.map Prod.fst).filterMap f :=
        List.filterMap_map.symm
    _ = points.filterMap f := by rw [List.zipIdx_map_fst]

section Loop

variable {range : Int} {points : List Point}
  (hback : ∀ p ∈ points, (p.time.minus? range).isSome = true)

include hback

/-- What the loop makes of its points is told by what it has passed at each of them. -/
theorem increaseSteps_eq_ok (passed : Passed) (j : Nat) :
    increaseSteps range passed j points = .ok (((points.zip (passes range passed points)).zipIdx
      j).filterMap fun q => changeSince q.2 q.1.1 q.1.2.base) := by
  induction points generalizing passed j with
  | nil => rfl
  | cons p points ih =>
    have hcutoff := minus?_eq_windowStart (hback p List.mem_cons_self)
    have hrest := ih fun q hq => hback q (List.mem_cons_of_mem _ hq)
    simp only [increaseSteps, passes, hcutoff, pure_bind, hrest]
    generalize Passed.advance (windowStart range p) passed.base passed.count passed.rest = next
    rw [List.zip_cons_cons, List.zipIdx_cons, List.filterMap_cons]
    cases hbase : next.base with
    | none => rfl
    | some q =>
      simp only [changeSince]
      by_cases hlt : q.1 < j
      · simp only [if_pos hlt]
        rfl
      · simp only [if_neg hlt]
        rfl

/-- **The loop never has to move back**: at each point it has passed what it would pass for that
point from the first one on. -/
theorem passes_eq_map {all : List Point} {passed : Passed} (hasc : Ascending points)
    (hleap : WithoutLeap points)
    (hreach : ∀ p ∈ points, Passed.advance (windowStart range p) passed.base passed.count
      passed.rest = Passed.upTo (windowStart range p) all) :
    passes range passed points = points.map fun p => Passed.upTo (windowStart range p) all := by
  induction points generalizing passed with
  | nil => rfl
  | cons p points ih =>
    obtain ⟨hfirst, hasc⟩ := List.pairwise_cons.1 hasc
    obtain ⟨hp, hleap⟩ := List.forall_mem_cons.1 hleap
    obtain ⟨hbackp, hback⟩ := List.forall_mem_cons.1 hback
    rw [passes, minus?_eq_windowStart hbackp]
    simp only [hreach p List.mem_cons_self, List.map_cons]
    refine congrArg _ (ih hback hasc hleap fun q hq => ?_)
    -- the window of a later point begins no earlier, so passing goes on from here
    have hle : windowStart range p ≤ windowStart range q := by
      have hwindow : (windowStart range p).isLeap = false := isLeap_windowStart hp
      rw [Time.Instant.le_iff_toNanos_le hwindow (isLeap_windowStart (hleap q hq)),
        toNanos_windowStart hp, toNanos_windowStart (hleap q hq)]
      have htime := (Time.Instant.le_iff_toNanos_le hp (hleap q hq)).1 (hfirst q hq)
      omega
    exact advance_advance hle none 0 all

end Loop

section Window

variable {range : Int} {points : List Point} {p : Point} {k : Nat} {b : Point}
  (hasc : Ascending points) (hleap : WithoutLeap points) (hp : p ∈ points)

include hasc hleap hp

/-- The last point passed for a point is the last one that is at least the range earlier. -/
theorem base_windowStart_eq_some_iff :
    (Passed.upTo (windowStart range p) points).base = some (k, b) ↔
      IsLatest (fun t => t.toNanos ≤ p.time.toNanos - range) points k b := by
  have hsame : ∀ q ∈ points,
      (q.time ≤ windowStart range p ↔ q.time.toNanos ≤ p.time.toNanos - range) := by
    intro q hq
    rw [Time.Instant.le_iff_toNanos_le (hleap q hq) (isLeap_windowStart (hleap p hp)),
      toNanos_windowStart (hleap p hp)]
  rw [base_upTo_eq_some_iff hasc]
  constructor
  · intro h
    exact ⟨h.get, (hsame b (List.mem_of_getElem? h.get)).1 h.holds, fun i q hi hq =>
      h.greatest i q hi ((hsame q (List.mem_of_getElem? hi)).2 hq)⟩
  · intro h
    exact ⟨h.get, (hsame b (List.mem_of_getElem? h.get)).2 h.holds, fun i q hi hq =>
      h.greatest i q hi ((hsame q (List.mem_of_getElem? hi)).1 hq)⟩

omit hp in
/-- A point that is earlier by a positive range stands before. -/
theorem index_lt_of_isLatest (hrange : 0 < range) {j : Nat} (hj : points[j]? = some p)
    (hk : IsLatest (fun t => t.toNanos ≤ p.time.toNanos - range) points k b) : k < j := by
  have hearlier := hk.holds
  obtain ⟨hjlt, hjp⟩ := List.getElem?_eq_some_iff.1 hj
  obtain ⟨hklt, hkb⟩ := List.getElem?_eq_some_iff.1 hk.get
  apply Nat.not_le.1
  intro hle
  rcases Nat.lt_or_eq_of_le hle with hlt | rfl
  · have htime := List.pairwise_iff_getElem.1 hasc j k hjlt hklt hlt
    rw [hjp, hkb, Time.Instant.le_iff_toNanos_le (hleap p (List.mem_of_getElem? hj))
      (hleap b (List.mem_of_getElem? hk.get))] at htime
    omega
  · obtain rfl : p = b := hjp.symm.trans hkb
    omega

/-- With a positive range, the loop makes of a point what its increase is. -/
theorem changeSince_eq_increaseOf (hrange : 0 < range) {j : Nat} (hj : points[j]? = some p) :
    changeSince j p (Passed.upTo (windowStart range p) points).base =
      increaseOf range points p := by
  have hbase {k b} : (Passed.upTo (windowStart range p) points).base = some (k, b) ↔
      IsLatest (fun t => t.toNanos ≤ p.time.toNanos - range) points k b :=
    base_windowStart_eq_some_iff hasc hleap hp
  rw [increaseOf]
  -- the point the loop has remembered is the latest one at the start of the window
  cases hpassed : (Passed.upTo (windowStart range p) points).base with
  | none =>
    have hnone : latest? (fun t => t.toNanos ≤ p.time.toNanos - range) points = none := by
      rw [Option.eq_none_iff_forall_ne_some]
      intro b hb
      obtain ⟨k, hk⟩ := latest?_eq_some_iff.1 hb
      rw [hbase.2 hk] at hpassed
      cases hpassed
    rw [hnone]
    rfl
  | some q =>
    have hk := hbase.1 hpassed
    have hlt := index_lt_of_isLatest hasc hleap hrange hj hk
    rw [latest?_eq_some_iff.2 ⟨_, hk⟩, changeSince, if_pos hlt]
    rfl

end Window

section Increases

variable {range : Int} {s : Series} (hasc : Ascending s.points) (hleap : WithoutLeap s.points)
  (hback : ∀ p ∈ s.points, (p.time.minus? range).isSome = true)

include hasc hleap hback

/-- From the first point on, the loop has passed at each point what it would pass for that point
alone. -/
theorem passes_eq_upTo : passes range ⟨none, 0, s.points⟩ s.points =
    s.points.map fun p => Passed.upTo (windowStart range p) s.points :=
  passes_eq_map hback hasc hleap fun _ _ => rfl

/-- With a positive range, the loop puts the increases of the points in their place. -/
theorem increase_eq_withChanges (hrange : 0 < range) :
    increase range s = .ok (s.withChanges (increaseOf range)) := by
  have hchange : ∀ q ∈ s.points.zipIdx,
      changeSince q.2 q.1 (Passed.upTo (windowStart range q.1) s.points).base =
        increaseOf range s.points q.1 := by
    intro q hq
    have hget := List.mem_zipIdx_iff_getElem?.1 hq
    exact changeSince_eq_increaseOf hasc hleap (List.mem_of_getElem? hget) hrange hget
  unfold increase withChanges
  rw [increaseSteps_eq_ok hback, passes_eq_upTo hasc hleap hback, ← List.map_prod_left_eq_zip,
    List.zipIdx_map, List.filterMap_map, ← filterMap_zipIdx, ← List.filterMap_congr hchange]
  rfl

end Increases

/-- **Increases compare each point with the last one that is at least the range earlier.** For
ascending points without leap seconds, and a positive range that can be subtracted from all their
times, a point has an increase exactly if there is a last one that is at least the range earlier,
and the increase is the change since then. The loop has passed at each point what it would pass for
that point from the first one on, and the last point passed always stands before. -/
theorem increase_compares_with_last_old_enough {range : Int} {s : Series} (hrange : 0 < range)
    (hasc : Ascending s.points) (hleap : WithoutLeap s.points)
    (hback : ∀ p ∈ s.points, (p.time.minus? range).isSome = true) :
    increase range s = .ok { s with points := s.points.filterMap (increaseOf range s.points) } ∧
      (∀ p out, increaseOf range s.points p = some out ↔
        ∃ k b, IsLatest (fun t => t.toNanos ≤ p.time.toNanos - range) s.points k b ∧
          out = ⟨p.time, p.value - b.value⟩) ∧
      passes range ⟨none, 0, s.points⟩ s.points =
        (s.points.map fun p => Passed.upTo (windowStart range p) s.points) ∧
      ∀ (j : Nat) p k b, s.points[j]? = some p →
        (Passed.upTo (windowStart range p) s.points).base = some (k, b) → k < j := by
  refine ⟨increase_eq_withChanges hasc hleap hback hrange, fun p out => increaseOf_eq_some_iff,
    passes_eq_upTo hasc hleap hback, ?_⟩
  intro j p k b hj hbase
  have hk := (base_windowStart_eq_some_iff hasc hleap (List.mem_of_getElem? hj)).1 hbase
  exact index_lt_of_isLatest hasc hleap hrange hj hk

/-- Only the last point has another one before it that is old enough: the second one of those with
the same time. -/
theorem increase_twice :
    (Ascending twice.points ∧ WithoutLeap twice.points ∧
      ∀ p ∈ twice.points, (p.time.minus? 20000000000).isSome = true) ∧
      increase 20000000000 twice =
        .ok { twice with points := [⟨.ofNanos 40000000000, 9 - 4⟩] } := by
  have hasc : Ascending twice.points := by decide
  have hleap : WithoutLeap twice.points := by decide
  have hback : ∀ p ∈ twice.points, (p.time.minus? 20000000000).isSome = true := by decide
  have hincrease := increase_compares_with_last_old_enough (by decide) hasc hleap hback
  exact ⟨⟨hasc, hleap, hback⟩, hincrease.1⟩

end Telemetry.Series
