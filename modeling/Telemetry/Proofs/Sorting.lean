import Mathlib.Data.List.Basic
import Mathlib.Data.List.Pairwise

/-!
Lists sorted by a number, whose members also have a rank that ascends along the list.

Sorting is stable: members with the same number stay in their order (`filter_mergeSort`). So the
sorted list ascends by number and then by rank, and it is the same list that one obtains by
comparing ranks where the numbers are equal (`mergeSort_tiebreak`).

An ascending list is determined by what it holds of each number (`eq_of_filter_key_eq`), so that it
does not matter whether a list is filtered before it is sorted or afterwards.
-/

set_option autoImplicit false

namespace Telemetry.Sorting

variable {α : Type} (key : α → Int)

/-- Whether the number of a member is at most that of another one. -/
def keyLe (a b : α) : Bool := decide (key a ≤ key b)

theorem keyLe_trans (a b c : α) (hab : keyLe key a b = true) (hbc : keyLe key b c = true) :
    keyLe key a c = true :=
  decide_eq_true (Int.le_trans (of_decide_eq_true hab) (of_decide_eq_true hbc))

theorem keyLe_total (a b : α) : (keyLe key a b || keyLe key b a) = true := by
  simp only [keyLe, Bool.or_eq_true, decide_eq_true_eq]
  exact Int.le_total _ _

/-- Sorting keeps the order of the members with one number. -/
theorem filter_mergeSort (l : List α) (k : Int) :
    (l.mergeSort (keyLe key)).filter (fun a => key a = k) = l.filter fun a => key a = k := by
  symm
  refine List.Sublist.eq_of_length ?_ ?_
  · -- they ascend, since all their numbers are the same, so sorting keeps them as they are
    have hasc : (l.filter fun a => key a = k).Pairwise fun a b => keyLe key a b = true := by
      refine List.pairwise_of_forall_mem_list fun a ha b hb => decide_eq_true ?_
      have hak : key a = k := of_decide_eq_true (List.mem_filter.1 ha).2
      have hbk : key b = k := of_decide_eq_true (List.mem_filter.1 hb).2
      omega
    have hsub := (List.sublist_mergeSort (keyLe_trans key) (keyLe_total key) hasc
      List.filter_sublist).filter fun a => key a = k
    simpa only [List.filter_filter, Bool.and_self] using hsub
  · exact ((List.mergeSort_perm l _).filter _).length_eq.symm

/-! ## What determines a sorted list

A list that is sorted by numbers is determined by its members of each number, in their order. So
two stable sorts, or a sort and a filter in either order, give one result. -/

variable {key} in
/-- Lists that hold the same of each number have the same members. -/
theorem mem_iff_of_filter_key_eq {l l' : List α}
    (heq : ∀ k, (l.filter fun a => key a = k) = l'.filter fun a => key a = k) (a : α) :
    a ∈ l ↔ a ∈ l' := by
  have hfilter : a ∈ l.filter (fun b => key b = key a) ↔
      a ∈ l'.filter fun b => key b = key a := by
    rw [heq]
  simpa using hfilter

variable {key} in
/-- The head of an ascending list has the least number. -/
theorem key_head_le {a : α} {l : List α} (h : (a :: l).Pairwise fun b c => key b ≤ key c) {b : α}
    (hb : b ∈ a :: l) : key a ≤ key b := by
  rcases List.mem_cons.1 hb with rfl | hb
  · exact Int.le_refl _
  · exact List.rel_of_pairwise_cons h hb

variable {key} in
/-- **An ascending list is determined by its members of each number**, in their order. -/
theorem eq_of_filter_key_eq {l l' : List α} (h : l.Pairwise fun a b => key a ≤ key b)
    (h' : l'.Pairwise fun a b => key a ≤ key b)
    (heq : ∀ k, (l.filter fun a => key a = k) = l'.filter fun a => key a = k) : l = l' := by
  have hmem := mem_iff_of_filter_key_eq heq
  induction l generalizing l' with
  | nil =>
    symm
    apply List.eq_nil_iff_forall_not_mem.2
    intro a ha
    exact List.not_mem_nil ((hmem a).2 ha)
  | cons a l ih =>
    cases l' with
    | nil => exact absurd ((hmem a).1 List.mem_cons_self) List.not_mem_nil
    | cons b l' =>
      -- each head has the least number, so both have the same one and are the first of it
      have hkey : key a = key b := by
        have hab := key_head_le h ((hmem b).2 List.mem_cons_self)
        have hba := key_head_le h' ((hmem a).1 List.mem_cons_self)
        omega
      have hheads := heq (key a)
      rw [List.filter_cons_of_pos (by simp), List.filter_cons_of_pos (by simp [hkey]),
        List.cons.injEq] at hheads
      obtain ⟨rfl, hrest⟩ := hheads
      have htails (k : Int) :
          (l.filter fun c => key c = k) = l'.filter fun c => key c = k := by
        by_cases hk : key a = k
        · rw [← hk]
          exact hrest
        · have hboth := heq k
          rwa [List.filter_cons_of_neg (by simp [hk]),
            List.filter_cons_of_neg (by simp [hk])] at hboth
      rw [ih h.of_cons h'.of_cons htails (mem_iff_of_filter_key_eq htails)]

theorem ascending_mergeSort (l : List α) :
    (l.mergeSort (keyLe key)).Pairwise fun a b => key a ≤ key b :=
  (List.pairwise_mergeSort (keyLe_trans key) (keyLe_total key) l).imp of_decide_eq_true

/-- Sorting what is left of a list is the same as leaving out of the sorted list. -/
theorem mergeSort_filter (p : α → Bool) (l : List α) :
    (l.filter p).mergeSort (keyLe key) = (l.mergeSort (keyLe key)).filter p := by
  apply eq_of_filter_key_eq (ascending_mergeSort key _) ((ascending_mergeSort key l).filter p)
  intro k
  rw [filter_mergeSort, List.filter_comm, List.filter_comm _ p, filter_mergeSort]

section Ranked

variable {rank : α → Nat} {l : List α} (hrank : l.Pairwise fun a b => rank a < rank b)

include hrank

/-- The sorted list ascends by number, then by rank. -/
theorem pairwise_mergeSort :
    (l.mergeSort (keyLe key)).Pairwise fun a b =>
      key a < key b ∨ (key a = key b ∧ rank a < rank b) := by
  rw [List.pairwise_iff_forall_sublist]
  intro a b hab
  have hle : key a ≤ key b := of_decide_eq_true (List.pairwise_iff_forall_sublist.1
    (List.pairwise_mergeSort (keyLe_trans key) (keyLe_total key) l) hab)
  rcases Int.lt_or_eq_of_le hle with hlt | heq
  · exact .inl hlt
  · -- among the members with this number the order is that of the list
    have hsub : [a, b].Sublist (l.filter fun c => key c = key b) := by
      rw [← filter_mergeSort key l]
      have hfilter := hab.filter fun c => decide (key c = key b)
      simpa [heq] using hfilter
    exact .inr ⟨heq, List.pairwise_iff_forall_sublist.1 hrank (hsub.trans List.filter_sublist)⟩

/-- A rank tells one member. -/
theorem eq_of_rank_eq {a b : α} (ha : a ∈ l) (hb : b ∈ l) (h : rank a = rank b) : a = b := by
  refine List.Pairwise.forall_of_forall_of_flip (R := fun a b => rank a = rank b → a = b)
    (fun _ _ _ => rfl) (hrank.imp ?_) (hrank.imp ?_) ha hb h
  · exact fun hlt heq => absurd heq (Nat.ne_of_lt hlt)
  · exact fun hlt heq => absurd heq.symm (Nat.ne_of_lt hlt)

/-- Whether a member has a lower number than another one, or the same number and no higher rank. -/
def TiebreakLe (rank : α → Nat) (a b : α) : Prop :=
  key a < key b ∨ (key a = key b ∧ rank a ≤ rank b)

instance (rank : α → Nat) (a b : α) : Decidable (TiebreakLe key rank a b) :=
  inferInstanceAs (Decidable (_ ∨ _))

/-- Comparing ranks where the numbers are equal leads to the same order. -/
theorem mergeSort_tiebreak :
    l.mergeSort (fun a b => decide (TiebreakLe key rank a b)) = l.mergeSort (keyLe key) := by
  have hperm (le : α → α → Bool) := List.mergeSort_perm l le
  have htie : (l.mergeSort fun a b => decide (TiebreakLe key rank a b)).Pairwise
      (TiebreakLe key rank) := by
    refine (List.pairwise_mergeSort ?_ ?_ l).imp fun h => of_decide_eq_true h
    · intro a b c hab hbc
      rw [decide_eq_true_eq, TiebreakLe] at *
      omega
    · intro a b
      rw [Bool.or_eq_true, decide_eq_true_eq, decide_eq_true_eq, TiebreakLe, TiebreakLe]
      omega
  have hkey : (l.mergeSort (keyLe key)).Pairwise (TiebreakLe key rank) :=
    (pairwise_mergeSort key hrank).imp fun h => h.imp_right fun h => ⟨h.1, Nat.le_of_lt h.2⟩
  -- both are sorted permutations, and the order leaves no two members in the same place
  refine List.Perm.eq_of_pairwise ?_ htie hkey ((hperm _).trans (hperm _).symm)
  intro a b ha hb hab hba
  refine eq_of_rank_eq hrank ((hperm _).mem_iff.1 ha) ((hperm _).mem_iff.1 hb) ?_
  simp only [TiebreakLe] at hab hba
  omega

end Ranked

/-! ## Positions -/

/-- What is selected from a list and sorted stands at positions of the list: those of the members
with the property, each once, by ascending number and then by themselves. -/
theorem exists_positions (p : α → Bool) (l : List α) :
    ∃ positions : List Nat,
      ((l.filter p).mergeSort (keyLe key)).map some = positions.map (l[·]?) ∧
      (∀ i, i ∈ positions ↔ ∃ a, l[i]? = some a ∧ p a = true) ∧
      positions.Pairwise fun i j => ∀ a b, l[i]? = some a → l[j]? = some b →
        key a < key b ∨ (key a = key b ∧ i < j) := by
  -- the members are selected and sorted together with their positions
  let placed := l.zipIdx.filter fun q => p q.1
  let sorted := placed.mergeSort (keyLe fun q => key q.1)
  have hget (q : α × Nat) (hq : q ∈ sorted) : l[q.2]? = some q.1 := by
    have hmem : q ∈ placed := (List.mergeSort_perm placed _).mem_iff.1 hq
    exact List.mem_zipIdx_iff_getElem?.1 (List.mem_filter.1 hmem).1
  have hplaced : placed.map (·.1) = l.filter p := by
    have hall : l.filter p = (l.zipIdx.map (·.1)).filter p := by rw [List.zipIdx_map_fst]
    rw [hall, List.filter_map]
    rfl
  have hsorted : sorted.map (·.1) = (l.filter p).mergeSort (keyLe key) := by
    rw [← hplaced]
    exact List.map_mergeSort fun _ _ _ _ => rfl
  refine ⟨sorted.map (·.2), ?_, fun i => ?_, ?_⟩
  · rw [← hsorted, List.map_map, List.map_map]
    exact List.map_congr_left fun q hq => (hget q hq).symm
  · rw [List.mem_map]
    constructor
    · rintro ⟨q, hq, rfl⟩
      have hmem : q ∈ placed := (List.mergeSort_perm placed _).mem_iff.1 hq
      exact ⟨q.1, hget q hq, (List.mem_filter.1 hmem).2⟩
    · rintro ⟨a, ha, hp⟩
      refine ⟨(a, i), (List.mergeSort_perm placed _).mem_iff.2 ?_, rfl⟩
      exact List.mem_filter.2 ⟨List.mem_zipIdx_iff_getElem?.2 ha, hp⟩
  · have hrank : l.zipIdx.Pairwise fun q r => q.2 < r.2 := by
      rw [← List.pairwise_map, List.zipIdx_map_snd]
      exact List.pairwise_lt_range'
    rw [List.pairwise_map]
    refine (pairwise_mergeSort (fun q : α × Nat => key q.1) (hrank.filter _)).imp_of_mem ?_
    intro q r hq hr hlt a b ha hb
    obtain rfl : q.1 = a := Option.some.inj ((hget q hq).symm.trans ha)
    obtain rfl : r.1 = b := Option.some.inj ((hget r hr).symm.trans hb)
    exact hlt

end Telemetry.Sorting
