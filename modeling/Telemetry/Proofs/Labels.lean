import Mathlib.Algebra.GroupWithZero.Nat
import Telemetry.Labels
import Telemetry.Proofs.Dictionary

/-!
What the key of a label set says about the label set.

A key joins the texts `name=value` by commas and escapes nothing, so it does not tell a comma
between two texts from a comma inside one. What it does tell is the list of the pieces between all
commas, the `fragments`: two label sets have the same key exactly if they have the same fragments.

From this follow the two ways in which keys are still safe. Among label sets without commas and
without equals signs in names, the key determines the label set. And no two label sets one of which
includes the other have the same key, since each further label adds at least one fragment.
-/

set_option autoImplicit false

namespace Telemetry.Labels

/-! ## Fragments -/

/-- A label as it stands in a key. -/
def pairText (e : String × String) : String := e.1 ++ "=" ++ e.2

/-- The texts of the labels, in ascending order. -/
def texts (labels : Labels) : List String :=
  (labels.entries.map pairText).mergeSort fun a b => decide (a ≤ b)

/-- The pieces of the texts between commas. -/
def fragments (labels : Labels) : List (List Char) :=
  labels.texts.flatMap fun t => t.toList.splitOn ','

theorem texts_perm (labels : Labels) : labels.texts.Perm (labels.entries.map pairText) :=
  List.mergeSort_perm _ _

/-- The key of labels is their texts with commas between them. -/
theorem toList_key (labels : Labels) :
    labels.key.toList = [','].intercalate (labels.texts.map String.toList) :=
  String.toList_intercalate

@[simp] theorem toList_pairText (e : String × String) :
    (pairText e).toList = e.1.toList ++ '=' :: e.2.toList := by
  simp [pairText, String.toList_append]

/-- Splitting at a separator undoes joining by it, as far as the joined lists hold none. -/
theorem splitOn_intercalate_flatMap {α : Type} [BEq α] [LawfulBEq α] (x : α) {ls : List (List α)}
    (h : ls ≠ []) : ([x].intercalate ls).splitOn x = ls.flatMap fun l => l.splitOn x := by
  induction ls with
  | nil => exact absurd rfl h
  | cons l ls ih =>
    rcases ls with _ | ⟨l', ls⟩
    · simp
    · rw [List.intercalate_cons_cons, List.append_assoc, List.singleton_append,
        List.splitOn_append_cons_self, ih (List.cons_ne_nil _ _),
        List.flatMap_cons (x := l)]

/-- Joining undoes splitting, list by list. -/
theorem intercalate_flatMap_splitOn {α : Type} [BEq α] [LawfulBEq α] (x : α) (ls : List (List α)) :
    [x].intercalate (ls.flatMap fun l => l.splitOn x) = [x].intercalate ls := by
  cases ls with
  | nil => rfl
  | cons l ls => rw [← splitOn_intercalate_flatMap x (List.cons_ne_nil l ls),
      List.intercalate_splitOn]

theorem fragments_eq_flatMap (labels : Labels) :
    labels.fragments = (labels.texts.map String.toList).flatMap fun t => t.splitOn ',' := by
  rw [fragments, List.flatMap_map]

/-- Where the texts ascend as the labels stand, the key joins them as they are. -/
theorem key_of_ascending {labels : Labels}
    (h : (labels.entries.map pairText).Pairwise fun s t => s ≤ t) :
    labels.key = String.intercalate "," (labels.entries.map pairText) := by
  have hsorted : labels.texts = labels.entries.map pairText :=
    List.mergeSort_of_pairwise (h.imp fun hle => decide_eq_true hle)
  rw [← hsorted]
  rfl

/-- Only a label set without labels has the empty key. -/
theorem key_ne_empty {labels : Labels} (h : labels.texts ≠ []) : labels.key ≠ "" := by
  obtain ⟨t, ts, hts⟩ := List.exists_cons_of_ne_nil h
  have hmem : t ∈ labels.entries.map pairText := labels.texts_perm.mem_iff.1 (by simp [hts])
  obtain ⟨e, -, rfl⟩ := List.mem_map.1 hmem
  intro hkey
  have hlist := labels.toList_key
  -- the first text has an equals sign at least
  rw [hkey, hts, List.map_cons] at hlist
  cases ts with
  | nil => simp at hlist
  | cons t ts => rw [List.map_cons, List.intercalate_cons_cons] at hlist; simp at hlist

/-- They are what commas separate in the key, unless this is empty. -/
theorem fragments_eq_ite (labels : Labels) :
    labels.fragments = if labels.key = "" then [] else labels.key.toList.splitOn ',' := by
  -- splitting the empty text gives one empty piece, but no label gives none
  by_cases htexts : labels.texts = []
  · have hkey : labels.key = "" := by
      rw [← String.toList_inj, toList_key, htexts]
      rfl
    rw [if_pos hkey, fragments, htexts, List.flatMap_nil]
  · rw [if_neg (key_ne_empty htexts), toList_key, fragments_eq_flatMap,
      splitOn_intercalate_flatMap _ (by simpa using htexts)]

/-- **The key tells the fragments and nothing else.** -/
theorem key_eq_key_iff (a b : Labels) : a.key = b.key ↔ a.fragments = b.fragments := by
  constructor
  · intro h
    rw [fragments_eq_ite, fragments_eq_ite, h]
  · intro h
    -- fragments joined by commas are the key again, whichever texts they come from
    rw [← String.toList_inj, toList_key, toList_key,
      ← intercalate_flatMap_splitOn ',' (a.texts.map _),
      ← intercalate_flatMap_splitOn ',' (b.texts.map _),
      ← fragments_eq_flatMap, ← fragments_eq_flatMap, h]

/-! ## Label sets without separators -/

/-- No name holds a comma or an equals sign, and no value a comma. -/
def Plain (labels : Labels) : Prop :=
  ∀ e ∈ labels.entries, ',' ∉ e.1.toList ∧ '=' ∉ e.1.toList ∧ ',' ∉ e.2.toList

instance (labels : Labels) : Decidable labels.Plain :=
  inferInstanceAs (Decidable (∀ e ∈ labels.entries, _))

/-- The first separator ends the first part. -/
theorem append_cons_inj {α : Type} {x : α} {a a' b b' : List α} (ha : x ∉ a) (ha' : x ∉ a')
    (h : a ++ x :: b = a' ++ x :: b') : a = a' ∧ b = b' := by
  induction a generalizing a' with
  -- nothing stands before the character in one of the texts, so it would stand in the other
  -- before itself
  | nil =>
    cases a' with
    | nil => simpa using h
    | cons c a' =>
      rw [List.nil_append, List.cons_append, List.cons.injEq] at h
      exact absurd (h.1 ▸ List.mem_cons_self) ha'
  | cons c a ih =>
    cases a' with
    | nil =>
      rw [List.nil_append, List.cons_append, List.cons.injEq] at h
      exact absurd (h.1 ▸ List.mem_cons_self) ha
    | cons c' a' =>
      rw [List.cons_append, List.cons_append, List.cons.injEq] at h
      obtain ⟨rfl, hrest⟩ := h
      obtain ⟨rfl, rfl⟩ := ih (fun hm => ha (List.mem_cons_of_mem _ hm))
        (fun hm => ha' (List.mem_cons_of_mem _ hm)) hrest
      exact ⟨rfl, rfl⟩

/-- The texts of such label sets are their own fragments. -/
theorem Plain.fragments_eq {labels : Labels} (h : labels.Plain) :
    labels.fragments = labels.texts.map String.toList := by
  rw [fragments, ← List.flatMap_singleton' (labels.texts.map String.toList), List.flatMap_map]
  refine List.flatMap_congr fun t ht => List.splitOn_eq_singleton ?_
  obtain ⟨e, he, rfl⟩ := List.mem_map.1 (labels.texts_perm.mem_iff.1 ht)
  obtain ⟨hname, -, hvalue⟩ := h e he
  simp [hname, hvalue]

/-- Among label sets without separators the key determines the label set. -/
theorem Plain.eq_of_key_eq {a b : Labels} (ha : a.Plain) (hb : b.Plain) (h : a.key = b.key) :
    a = b := by
  rw [key_eq_key_iff, ha.fragments_eq, hb.fragments_eq] at h
  have htexts : a.texts = b.texts :=
    List.map_injective_iff.2 (fun _ _ => String.toList_inj.1) h
  -- a text gives its label back, since the first equals sign ends the name
  have hsub {c d : Labels} (hc : c.Plain) (hd : d.Plain) (hcd : c.texts = d.texts)
      (e : String × String) (he : e ∈ c.entries) : e ∈ d.entries := by
    have hmem : pairText e ∈ d.entries.map pairText := by
      rw [← d.texts_perm.mem_iff, ← hcd, c.texts_perm.mem_iff]
      exact List.mem_map_of_mem he
    obtain ⟨e', he', heq⟩ := List.mem_map.1 hmem
    rw [← String.toList_inj, toList_pairText, toList_pairText] at heq
    obtain ⟨h1, h2⟩ := append_cons_inj (hd e' he').2.1 (hc e he).2.1 heq
    rwa [Prod.ext (String.toList_inj.1 h1) (String.toList_inj.1 h2)] at he'
  exact Dictionary.ext_mem fun e => ⟨hsub ha hb htexts e, hsub hb ha htexts.symm e⟩

/-! ## Label sets that include another one -/

/-- How many fragments a label adds to a key. -/
def weight (e : String × String) : Nat := ((pairText e).toList.splitOn ',').length

/-- Each label has a fragment. -/
theorem weight_pos (e : String × String) : 0 < weight e :=
  List.length_pos_iff.2 (List.splitOn_ne_nil _ _)

/-- There are as many fragments as the labels weigh. -/
theorem length_fragments (labels : Labels) :
    labels.fragments.length = (labels.entries.map weight).sum := by
  have hperm := labels.texts_perm.flatMap_right fun t => t.toList.splitOn ','
  rw [fragments, hperm.length_eq, List.length_flatMap, List.map_map]
  rfl

/-- A label set and one that it includes have different keys, unless they are the same. -/
theorem eq_of_subset_of_key_eq {a b : Labels} (hsub : b.entries ⊆ a.entries)
    (h : a.key = b.key) : a = b := by
  -- the labels of `a` are those of `b` and some more, and each of these adds a fragment
  have hperm : (a.entries.filter fun e => decide (e ∈ b.entries)).Perm b.entries := by
    refine (List.perm_ext_iff_of_nodup (a.nodup_entries.filter _) b.nodup_entries).2 fun e => ?_
    rw [List.mem_filter, decide_eq_true_eq]
    exact ⟨And.right, fun he => ⟨hsub he, he⟩⟩
  have hsum : (a.entries.map weight).sum = (b.entries.map weight).sum +
      ((a.entries.filter fun e => !decide (e ∈ b.entries)).map weight).sum := by
    rw [← (hperm.map weight).sum_nat, ← List.sum_append, ← List.map_append]
    exact ((List.filter_append_perm _ a.entries).map weight).sum_nat.symm
  have hlen : (a.entries.map weight).sum = (b.entries.map weight).sum := by
    rw [← length_fragments, ← length_fragments, (key_eq_key_iff a b).1 h]
  refine Dictionary.ext_mem fun e => ⟨fun he => ?_, fun he => hsub he⟩
  by_contra hnot
  have hmem : e ∈ a.entries.filter fun e => !decide (e ∈ b.entries) :=
    List.mem_filter.2 ⟨he, by simp [hnot]⟩
  have hpos := List.sum_pos_iff_exists_pos_nat.2
    ⟨weight e, List.mem_map_of_mem hmem, weight_pos e⟩
  omega

end Telemetry.Labels
