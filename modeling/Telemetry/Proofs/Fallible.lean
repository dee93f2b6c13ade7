import Mathlib.Data.List.Forall2

/-!
Steps that may fail, one after another and in lists.

A list of steps succeeds as a whole exactly if each one does, and then with the list of their
results. What is true of every error of each step is true of every error of the whole (`OnlyFails`).
-/

set_option autoImplicit false

namespace Telemetry.Fallible

variable {ε α β : Type} {f : α → Except ε β}

/-- What follows a step that succeeds as a whole has followed on its success. -/
theorem bind_eq_ok {x : Except ε α} {g : α → Except ε β} {b : β} (h : x >>= g = .ok b) :
    ∃ a, x = .ok a ∧ g a = .ok b := by
  cases x with
  | error e => cases h
  | ok a => exact ⟨a, rfl, h⟩

theorem map_eq_ok {x : Except ε α} {g : α → β} {b : β} (h : x.map g = .ok b) :
    ∃ a, x = .ok a ∧ g a = b := by
  cases x with
  | error e => cases h
  | ok a => exact ⟨a, rfl, Except.ok.inj h⟩

theorem mapError_eq_ok {ε' : Type} {x : Except ε α} {g : ε → ε'} {a : α}
    (h : x.mapError g = .ok a) : x = .ok a := by
  cases x with
  | error e => cases h
  | ok b => exact congrArg Except.ok (Except.ok.inj h)

theorem toOption_eq_some {x : Except ε α} {a : α} : x.toOption = some a ↔ x = .ok a := by
  cases x <;> simp [Except.toOption]

@[simp] theorem pure_ne_error (a : α) (e : ε) : (pure a : Except ε α) ≠ .error e := nofun

@[simp] theorem throw_eq_error_iff {e e' : ε} : (throw e : Except ε α) = .error e' ↔ e = e' :=
  ⟨fun h => Except.error.inj h, fun h => h ▸ rfl⟩

theorem mapM_cons_ok {x : α} {xs : List α} {y : β} {ys : List β} (hx : f x = .ok y)
    (hxs : xs.mapM f = .ok ys) : (x :: xs).mapM f = .ok (y :: ys) := by
  rw [List.mapM_cons, hx, hxs]
  rfl

theorem mapM_cons_error {x : α} {xs : List α} {e : ε} (hx : f x = .error e) :
    (x :: xs).mapM f = .error e := by
  rw [List.mapM_cons, hx]
  rfl

theorem mapM_cons_error_tail {x : α} {xs : List α} {y : β} {e : ε} (hx : f x = .ok y)
    (hxs : xs.mapM f = .error e) : (x :: xs).mapM f = .error e := by
  rw [List.mapM_cons, hx, hxs]
  rfl

/-- A list is passed exactly if each of its items is, to the result at the same place. -/
theorem mapM_eq_ok_iff {xs : List α} {ys : List β} :
    xs.mapM f = .ok ys ↔ List.Forall₂ (fun x y => f x = .ok y) xs ys := by
  induction xs generalizing ys with
  | nil =>
    rw [List.mapM_nil, List.forall₂_nil_left_iff]
    exact ⟨fun h => (Except.ok.inj h).symm, fun h => h ▸ rfl⟩
  | cons x xs ih =>
    rw [List.forall₂_cons_left_iff]
    constructor
    · intro h
      -- the list fails where its first failing step does, so no step of it failed
      cases hx : f x with
      | error e =>
        rw [mapM_cons_error hx] at h
        cases h
      | ok y =>
        cases hxs : xs.mapM f with
        | error e =>
          rw [mapM_cons_error_tail hx hxs] at h
          cases h
        | ok zs =>
          rw [mapM_cons_ok hx hxs] at h
          cases h
          exact ⟨y, zs, rfl, ih.1 hxs, rfl⟩
    · rintro ⟨y, zs, hx, hzs, rfl⟩
      exact mapM_cons_ok hx (ih.2 hzs)

/-- Two lists that are passed as one are passed one after the other. -/
theorem mapM_append_eq_ok {xs xs' : List α} {ys : List β} (h : (xs ++ xs').mapM f = .ok ys) :
    ∃ zs zs', xs.mapM f = .ok zs ∧ xs'.mapM f = .ok zs' ∧ ys = zs ++ zs' := by
  rw [List.mapM_append] at h
  obtain ⟨zs, hzs, h⟩ := bind_eq_ok h
  obtain ⟨zs', hzs', h⟩ := bind_eq_ok h
  exact ⟨zs, zs', hzs, hzs', (Except.ok.inj h).symm⟩

/-- What is in the list of results is the result of a step. -/
theorem exists_of_mem_mapM {xs : List α} {ys : List β} (h : xs.mapM f = .ok ys) {y : β}
    (hy : y ∈ ys) : ∃ x ∈ xs, f x = .ok y := by
  rw [mapM_eq_ok_iff] at h
  induction h with
  | nil => cases hy
  | @cons x _ _ _ hx _ ih =>
    obtain rfl | hy := List.mem_cons.1 hy
    · exact ⟨x, List.mem_cons_self, hx⟩
    · obtain ⟨x', hmem, hx'⟩ := ih hy
      exact ⟨x', List.mem_cons_of_mem _ hmem, hx'⟩

/-- A list of steps fails like one of them. -/
theorem exists_of_mapM_eq_error {xs : List α} {e : ε} (h : xs.mapM f = .error e) :
    ∃ x ∈ xs, f x = .error e := by
  induction xs with
  | nil => cases h
  | cons x xs ih =>
    cases hx : f x with
    | error e' =>
      rw [mapM_cons_error hx] at h
      exact ⟨x, List.mem_cons_self, hx.trans (congrArg _ (Except.error.inj h))⟩
    | ok y =>
      cases hxs : xs.mapM f with
      | ok ys =>
        rw [mapM_cons_ok hx hxs] at h
        cases h
      | error e' =>
        rw [mapM_cons_error_tail hx hxs] at h
        obtain ⟨x', hmem, hx'⟩ := ih (hxs.trans (congrArg _ (Except.error.inj h)))
        exact ⟨x', List.mem_cons_of_mem _ hmem, hx'⟩

/-- A list of steps succeeds if each of them does. -/
theorem exists_mapM_eq_ok_iff {xs : List α} :
    (∃ ys, xs.mapM f = .ok ys) ↔ ∀ x ∈ xs, ∃ y, f x = .ok y := by
  induction xs with
  | nil => simp [pure, Except.pure]
  | cons x xs ih =>
    rw [List.forall_mem_cons, ← ih]
    simp only [mapM_eq_ok_iff, List.forall₂_cons_left_iff]
    constructor
    · rintro ⟨_, y, ys, hx, hys, rfl⟩
      exact ⟨⟨y, hx⟩, ys, hys⟩
    · rintro ⟨⟨y, hx⟩, ys, hys⟩
      exact ⟨_, y, ys, hx, hys, rfl⟩

/-- A step on what may be missing has a result that is not missing exactly if there is something,
and the step succeeds on it. -/
theorem mapM_eq_ok_some_iff {o : Option α} {b : β} :
    o.mapM f = .ok (some b) ↔ ∃ a, o = some a ∧ f a = .ok b := by
  cases o with
  | none => simp [pure, Except.pure]
  | some a => cases h : f a <;> simp [h, Functor.map, Except.map]

theorem mapM_eq_error_iff {o : Option α} {e : ε} :
    o.mapM f = .error e ↔ ∃ a, o = some a ∧ f a = .error e := by
  cases o with
  | none => simp [pure, Except.pure]
  | some a => cases h : f a <;> simp [h, Functor.map, Except.map]

/-- A check of what may be missing fails exactly if there is something, and it fails on it. -/
theorem forM_eq_error_iff {check : α → Except ε Unit} {o : Option α} {e : ε} :
    o.forM check = .error e ↔ ∃ a, o = some a ∧ check a = .error e := by
  cases o <;> simp [Option.forM, pure, Except.pure]

theorem forM_eq_ok_iff {check : α → Except ε Unit} {o : Option α} :
    o.forM check = .ok () ↔ ∀ a, o = some a → check a = .ok () := by
  cases o <;> simp [Option.forM, pure, Except.pure]

/-- Two checks pass together exactly if each one passes. -/
theorem bind_check_eq_ok_iff {x y : Except ε Unit} :
    (x >>= fun _ => y) = .ok () ↔ x = .ok () ∧ y = .ok () := by
  cases x <;> simp [bind, Except.bind]

/-- What each step of a fold keeps holds of the result. -/
theorem foldlM_ok_invariant {p : β → Prop} {g : β → α → Except ε β}
    (hstep : ∀ b x b', p b → g b x = .ok b' → p b') {xs : List α} {b b' : β}
    (h : xs.foldlM g b = .ok b') (hb : p b) : p b' := by
  induction xs generalizing b with
  | nil => exact Except.ok.inj h ▸ hb
  | cons x xs ih =>
    rw [List.foldlM_cons] at h
    obtain ⟨next, hnext, h⟩ := bind_eq_ok h
    exact ih h (hstep b x next hb hnext)

/-! ## Which errors there are -/

/-- Two steps fail exactly if the first does, or the second with the result of the first. -/
theorem bind_eq_error_iff {x : Except ε α} {g : α → Except ε β} {e : ε} :
    x >>= g = .error e ↔ x = .error e ∨ ∃ a, x = .ok a ∧ g a = .error e := by
  cases x with
  | error e' =>
    rw [or_iff_left (by rintro ⟨a, h, -⟩; cases h)]
    exact ⟨fun h => congrArg _ (Except.error.inj h), fun h => congrArg _ (Except.error.inj h)⟩
  | ok a =>
    rw [or_iff_right (by rintro ⟨⟩)]
    exact ⟨fun h => ⟨a, rfl, h⟩, fun ⟨_, h, hg⟩ => Except.ok.inj h ▸ hg⟩

@[simp] theorem functor_map_eq_error_iff {x : Except ε α} {g : α → β} {e : ε} :
    g <$> x = .error e ↔ x = .error e := by
  cases x <;> simp [Functor.map, Except.map]

/-- Whether each error that a step can have has a property. -/
def OnlyFails (p : ε → Prop) (x : Except ε α) : Prop := ∀ e, x = .error e → p e

variable {p : ε → Prop}

@[simp] theorem onlyFails_ok (a : α) : OnlyFails p (.ok a : Except ε α) := nofun

@[simp] theorem onlyFails_pure (a : α) : OnlyFails p (pure a : Except ε α) := nofun

@[simp] theorem onlyFails_error (e : ε) : OnlyFails p (.error e : Except ε α) ↔ p e :=
  ⟨fun h => h e rfl, fun h _ he => Except.error.inj he ▸ h⟩

@[simp] theorem onlyFails_throw (e : ε) : OnlyFails p (throw e : Except ε α) ↔ p e :=
  onlyFails_error e

/-- Two steps only fail in a way if each of them does, the second with results of the first. -/
@[simp] theorem onlyFails_bind {x : Except ε α} {g : α → Except ε β} :
    OnlyFails p (x >>= g) ↔ OnlyFails p x ∧ ∀ a, x = .ok a → OnlyFails p (g a) := by
  simp only [OnlyFails, bind_eq_error_iff, or_imp, forall_and]
  exact and_congr_right fun _ =>
    ⟨fun h a ha e he => h e ⟨a, ha, he⟩, fun h e ⟨a, ha, he⟩ => h a ha e he⟩

@[simp] theorem onlyFails_functor_map {x : Except ε α} {g : α → β} :
    OnlyFails p (g <$> x) ↔ OnlyFails p x := by
  cases x <;> simp [Functor.map, Except.map]

@[simp] theorem onlyFails_ite {c : Prop} [Decidable c] {x y : Except ε α} :
    OnlyFails p (if c then x else y) ↔ (c → OnlyFails p x) ∧ (¬ c → OnlyFails p y) := by
  split <;> simp [*]

@[simp] theorem onlyFails_map {x : Except ε α} {g : α → β} :
    OnlyFails p (x.map g) ↔ OnlyFails p x := by
  cases x <;> simp [Except.map]

@[simp] theorem onlyFails_option_mapM {o : Option α} :
    OnlyFails p (o.mapM f) ↔ ∀ a, o = some a → OnlyFails p (f a) := by
  cases o <;> simp

theorem OnlyFails.ne_error {x : Except ε α} (h : OnlyFails p x) {e : ε} (he : ¬ p e) :
    x ≠ .error e := fun hx => he (h e hx)

theorem OnlyFails.mono {q : ε → Prop} {x : Except ε α} (h : OnlyFails p x) (hpq : ∀ e, p e → q e) :
    OnlyFails q x := fun e he => hpq e (h e he)

/-- A list only fails in a way if its items do. -/
theorem OnlyFails.mapM {xs : List α} (h : ∀ x ∈ xs, OnlyFails p (f x)) :
    OnlyFails p (xs.mapM f) := by
  intro e he
  obtain ⟨x, hx, hfx⟩ := exists_of_mapM_eq_error he
  exact h x hx e hfx

/-- A loop only fails in a way if each of its steps does. -/
theorem OnlyFails.foldlM {g : β → α → Except ε β} {xs : List α}
    (h : ∀ b, ∀ x ∈ xs, OnlyFails p (g b x)) (b : β) : OnlyFails p (xs.foldlM g b) := by
  induction xs generalizing b with
  | nil => exact onlyFails_pure b
  | cons x xs ih =>
    rw [List.foldlM_cons, onlyFails_bind]
    exact ⟨h b x List.mem_cons_self,
      fun b' _ => ih (fun b x hx => h b x (List.mem_cons_of_mem _ hx)) b'⟩

end Telemetry.Fallible
