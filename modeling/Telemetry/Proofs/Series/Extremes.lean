import Mathlib.Data.Prod.Lex
import Telemetry.Series.Aggregate

/-!
The smallest and the greatest of some numbers.

The comparison of doubles is a strict order of the numbers, and a NaN is before and behind none
(`lt_iff_place`). The smaller of two is one of the two with none before it, where a NaN counts only
beside another one. What is true of two is true of the fold over a list (`isFirst_foldl`): the
smallest of the values of several series is one of them, none of them is smaller, and it is no
number only if none of them is one. All of this is said once for an order and its converse, and so
of the greatest as well.
-/

set_option autoImplicit false

namespace Telemetry

/-! ## The order of doubles -/

namespace Double

open Float.Model (UnpackedFloat)

/-- Where a number stands among the others: by its class first, from negative to positive infinity,
and within a class by the exponent and then the mantissa, which run backwards for negative numbers.
A NaN stands nowhere. -/
def place? : UnpackedFloat → Option (Int ×ₗ Int ×ₗ Int)
  | .notANumber => none
  | .infinity .negative => some (toLex (-2, toLex (0, 0)))
  | .finite .negative m e _ => some (toLex (-1, toLex (-e, -m)))
  | .zero _ => some (toLex (0, toLex (0, 0)))
  | .finite .positive m e _ => some (toLex (1, toLex (e, m)))
  | .infinity .positive => some (toLex (2, toLex (0, 0)))

/-- Numbers apart from their bits are compared by their places. -/
theorem unpacked_lt_iff {x y : UnpackedFloat} :
    x.lt y = true ↔ ∃ p q, place? x = some p ∧ place? y = some q ∧ p < q := by
  rcases x with (_ | _) | _ | _ | ⟨_ | _, m, e, hm⟩ <;>
    rcases y with (_ | _) | _ | _ | ⟨_ | _, m', e', hm'⟩ <;>
    dsimp only [UnpackedFloat.lt, UnpackedFloat.compare, place?] <;>
    simp [Prod.Lex.toLex_lt_toLex]
  -- what is left are the two infinities, and two numbers of one sign
  · rfl
  · rw [Ordering.then_eq_gt, Int.compare_eq_gt, Int.compare_eq_eq, Nat.compare_eq_gt]
  · rw [Ordering.then_eq_lt, Int.compare_eq_lt, Int.compare_eq_eq, Nat.compare_eq_lt]

/-- Doubles are compared by their places. -/
theorem lt_iff_place {x y : Float} :
    x < y ↔ ∃ p q, place? x.toModel.unpack = some p ∧ place? y.toModel.unpack = some q ∧ p < q := by
  show x.lt y = true ↔ _
  rw [Float.lt, decide_eq_true_iff]
  exact unpacked_lt_iff

/-- Only a NaN has none. -/
theorem isNaN_of_place? {x : Float} {p : Int ×ₗ Int ×ₗ Int}
    (h : place? x.toModel.unpack = some p) : x.isNaN = false := by
  show x.toModel.unpack.isNaN = false
  generalize x.toModel.unpack = u at h
  cases u with
  | notANumber => cases h
  | infinity | zero | finite => rfl

end Double

namespace Series

/-! ## Orders -/

/-- Whether a relation is a strict order of numbers in which a NaN has no place. -/
structure OrdersNumbers (before : Float → Float → Prop) : Prop where
  irrefl (x : Float) : ¬ before x x
  trans {x y z : Float} : before x y → before y z → before x z
  left {x y : Float} : before x y → x.isNaN = false
  right {x y : Float} : before x y → y.isNaN = false

/-- By size, upwards. -/
theorem ordersNumbers_lt : OrdersNumbers fun x y => x < y where
  irrefl x h := by
    obtain ⟨p, q, hp, hq, hlt⟩ := Double.lt_iff_place.1 h
    obtain rfl : p = q := Option.some.inj (hp.symm.trans hq)
    exact hlt.ne rfl
  trans hxy hyz := by
    obtain ⟨p, q, hp, hq, hpq⟩ := Double.lt_iff_place.1 hxy
    obtain ⟨q', r, hq', hr, hqr⟩ := Double.lt_iff_place.1 hyz
    obtain rfl : q = q' := Option.some.inj (hq.symm.trans hq')
    exact Double.lt_iff_place.2 ⟨p, r, hp, hr, hpq.trans hqr⟩
  left h := by
    obtain ⟨p, q, hp, -, -⟩ := Double.lt_iff_place.1 h
    exact Double.isNaN_of_place? hp
  right h := by
    obtain ⟨p, q, -, hq, -⟩ := Double.lt_iff_place.1 h
    exact Double.isNaN_of_place? hq

/-- And downwards. -/
theorem ordersNumbers_gt : OrdersNumbers fun x y => y < x where
  irrefl := ordersNumbers_lt.irrefl
  trans hxy hyz := ordersNumbers_lt.trans hyz hxy
  left := ordersNumbers_lt.right
  right := ordersNumbers_lt.left

/-! ## One of two -/

/-- Whether an operation chooses the first of two numbers by an order: a NaN gives way to the other
one, and of two that have the same place the first is taken. -/
def Chooses (before : Float → Float → Prop) (choose : Float → Float → Float) : Prop :=
  ∀ x y, choose x y = y ∧ (x.isNaN = true ∨ before y x) ∨
    choose x y = x ∧ x.isNaN = false ∧ (y.isNaN = true ∨ ¬ before y x)

/-- An operation that skips a NaN and otherwise compares is a choice. -/
theorem chooses_of_eq {before : Float → Float → Prop} [∀ x y, Decidable (before x y)]
    {choose : Float → Float → Float}
    (h : ∀ x y, choose x y =
      if x.isNaN then y else if y.isNaN then x else if before y x then y else x) :
    Chooses before choose := by
  intro x y
  rw [h]
  by_cases hx : x.isNaN = true
  · exact .inl ⟨if_pos hx, .inl hx⟩
  · rw [if_neg hx]
    by_cases hy : y.isNaN = true
    · exact .inr ⟨if_pos hy, Bool.eq_false_of_not_eq_true hx, .inl hy⟩
    · rw [if_neg hy]
      by_cases hbefore : before y x
      · exact .inl ⟨if_pos hbefore, .inr hbefore⟩
      · exact .inr ⟨if_neg hbefore, Bool.eq_false_of_not_eq_true hx, .inr hbefore⟩

/-- The smaller number is chosen upwards. -/
theorem chooses_smaller : Chooses (fun x y => x < y) smaller :=
  chooses_of_eq fun _ _ => rfl

/-- And the greater one downwards. -/
theorem chooses_greater : Chooses (fun x y => y < x) greater :=
  chooses_of_eq fun _ _ => rfl

/-- Whether a value is a first one of some values by an order. -/
structure IsFirst (before : Float → Float → Prop) (v : Float) (values : List Float) : Prop where
  /-- It is one of them. -/
  mem : v ∈ values
  /-- None of them is before it. -/
  not_before : ∀ x ∈ values, ¬ before x v
  /-- It is no number only if none of them is one. -/
  ignores_nan : v.isNaN = true → ∀ x ∈ values, x.isNaN = true

namespace OrdersNumbers

variable {before : Float → Float → Prop} {choose : Float → Float → Float}

/-- A value is the first one of itself. -/
theorem isFirst_singleton (h : OrdersNumbers before) (v : Float) : IsFirst before v [v] where
  mem := List.mem_singleton_self v
  not_before := List.forall_mem_singleton.2 (h.irrefl v)
  ignores_nan hnan := List.forall_mem_singleton.2 hnan

/-- A value takes the place of the first one if it is before it, or if that is no number. -/
theorem isFirst_concat_of_later (h : OrdersNumbers before) {v y : Float} {values : List Float}
    (hv : IsFirst before v values) (hlater : v.isNaN = true ∨ before y v) :
    IsFirst before y (values ++ [y]) := by
  refine ⟨List.mem_append_right _ (List.mem_singleton_self y), fun x hx => ?_, fun hy x hx => ?_⟩
  · obtain hx | hx := List.mem_append.1 hx
    · intro hbefore
      obtain hnan | hyv := hlater
      · -- then no value before it is a number
        have hxnan := hv.ignores_nan hnan x hx
        rw [h.left hbefore] at hxnan
        cases hxnan
      · exact hv.not_before x hx (h.trans hbefore hyv)
    · rw [List.mem_singleton.1 hx]
      exact h.irrefl y
  · obtain hx | hx := List.mem_append.1 hx
    · obtain hnan | hyv := hlater
      · exact hv.ignores_nan hnan x hx
      · rw [h.left hyv] at hy
        cases hy
    · rw [List.mem_singleton.1 hx]
      exact hy

/-- A first one that is a number stays one, unless the new value is before it. -/
theorem isFirst_concat_of_kept (h : OrdersNumbers before) {v y : Float} {values : List Float}
    (hv : IsFirst before v values) (hnumber : v.isNaN = false)
    (hkept : y.isNaN = true ∨ ¬ before y v) : IsFirst before v (values ++ [y]) := by
  refine ⟨List.mem_append_left _ hv.mem, fun x hx => ?_, fun hnan => ?_⟩
  · obtain hx | hx := List.mem_append.1 hx
    · exact hv.not_before x hx
    · rw [List.mem_singleton.1 hx]
      obtain hy | hy := hkept
      · intro hbefore
        rw [h.left hbefore] at hy
        cases hy
      · exact hy
  · rw [hnumber] at hnan
    cases hnan

/-- One more value is taken into account by a choice. -/
theorem isFirst_concat (h : OrdersNumbers before) (hchoose : Chooses before choose) {v y : Float}
    {values : List Float} (hv : IsFirst before v values) :
    IsFirst before (choose v y) (values ++ [y]) := by
  obtain ⟨heq, hlater⟩ | ⟨heq, hnumber, hkept⟩ := hchoose v y
  · rw [heq]
    exact h.isFirst_concat_of_later hv hlater
  · rw [heq]
    exact h.isFirst_concat_of_kept hv hnumber hkept

/-- So the choice of two is a first one of both, whichever they are. -/
theorem isFirst_pair (h : OrdersNumbers before) (hchoose : Chooses before choose) (x y : Float) :
    IsFirst before (choose x y) [x, y] :=
  h.isFirst_concat hchoose (h.isFirst_singleton x)

/-- And the fold of a list is a first one of all values. -/
theorem isFirst_foldl (h : OrdersNumbers before) (hchoose : Chooses before choose)
    {v : Float} {values : List Float} (hv : IsFirst before v values) (more : List Float) :
    IsFirst before (more.foldl choose v) (values ++ more) := by
  induction more generalizing v values with
  | nil => rwa [List.append_nil]
  | cons y more ih =>
    have hstep := ih (h.isFirst_concat hchoose (y := y) hv)
    rwa [List.append_assoc, List.singleton_append] at hstep

/-- What series are reduced to by a choice is a first one of their values, and there is one unless
there is no value. -/
theorem reduce?_of_values (h : OrdersNumbers before) (hchoose : Chooses before choose)
    {members : List Series} {values : List Float}
    (hvalues : (members.flatMap fun s => s.points.map (·.value)) = values) :
    (reduce? choose members = none ↔ values = []) ∧
      ∀ v, reduce? choose members = some v → IsFirst before v values := by
  rw [reduce?, hvalues]
  cases values with
  | nil => exact ⟨iff_of_true rfl rfl, nofun⟩
  | cons first others =>
    refine ⟨iff_of_false nofun (List.cons_ne_nil _ _), fun v hv => ?_⟩
    obtain rfl := Option.some.inj hv
    exact h.isFirst_foldl hchoose (h.isFirst_singleton first) others

end OrdersNumbers

/-! ## Smallest and greatest -/

/-- **The smaller of two numbers** is one of them, above neither, and a NaN only of two. -/
theorem isFirst_smaller (x y : Float) : IsFirst (fun x y => x < y) (smaller x y) [x, y] :=
  ordersNumbers_lt.isFirst_pair chooses_smaller x y

/-- **The greater of two numbers** is one of them, below neither, and a NaN only of two. -/
theorem isFirst_greater (x y : Float) : IsFirst (fun x y => y < x) (greater x y) [x, y] :=
  ordersNumbers_gt.isFirst_pair chooses_greater x y

/-- **The smallest value of several series** is one of their values, above none of them, and a NaN
only if all of them are. There is none exactly if there is no value. -/
theorem reduce?_smaller (members : List Series) :
    let values := members.flatMap fun s => s.points.map (·.value)
    (reduce? smaller members = none ↔ values = []) ∧
      ∀ v, reduce? smaller members = some v → IsFirst (fun x y => x < y) v values :=
  ordersNumbers_lt.reduce?_of_values chooses_smaller rfl

/-- **The greatest value of several series**, in the same way. -/
theorem reduce?_greater (members : List Series) :
    let values := members.flatMap fun s => s.points.map (·.value)
    (reduce? greater members = none ↔ values = []) ∧
      ∀ v, reduce? greater members = some v → IsFirst (fun x y => y < x) v values :=
  ordersNumbers_gt.reduce?_of_values chooses_greater rfl

end Series

end Telemetry
