import Mathlib.Data.List.Nodup
import Telemetry.Proofs.Store.Retention
import Telemetry.Proofs.Store.Transaction

/-!
Listings, page by page.

A page is a slice of one and the same list: the rows of a kind, the latest first and, at one time,
the one that was inserted last first. Since identifiers are not given twice, this order is total, so
it leaves one list only (`newestFirst_strict`). Whatever holds of consecutive pages is then about
slices of a list: those that follow one another without a gap make up its beginning
(`flatMap_slice`), and no place of the list is shown by two of them. That the limit is positive is
needed only for this beginning to reach the end.
-/

set_option autoImplicit false

namespace Telemetry

open Time (Instant)

/-! ## Slices of a list

A page is a slice: so many rows are passed over, and so many are shown. Pages of one size, one
after another, are the list. -/

namespace Page

variable {α : Type}

/-- The length of a page, for any limit and offset, negative ones included. -/
theorem length_slice (p : Page) (xs : List α) :
    ((p.slice xs).length : Int) = min (max p.limit 0) (max (xs.length - max p.offset 0) 0) := by
  rw [slice, List.length_take, List.length_drop]
  omega

/-- The page that is asked for behind a number of others with the same limit. -/
def numbered (limit k : Nat) : Page :=
  ofRequest (some (limit : Int)) (some ((k * limit : Nat) : Int))

/-- A numbered page is so many items behind those of the pages before it. -/
theorem slice_numbered (limit k : Nat) (xs : List α) :
    (numbered limit k).slice xs = (xs.drop (k * limit)).take limit := by
  rw [slice, numbered, ofRequest, Option.getD_some, Option.getD_some,
    Int.max_eq_left (Int.natCast_nonneg _), Int.max_eq_left (Int.natCast_nonneg _),
    Int.toNat_natCast, Int.toNat_natCast]

/-- Pages that follow one another show the beginning of a list. -/
theorem flatMap_slice (limit n : Nat) (xs : List α) :
    (List.range n).flatMap (fun k => (numbered limit k).slice xs) = xs.take (n * limit) := by
  induction n with
  | zero => simp
  | succ n ih =>
    rw [List.range_succ, List.flatMap_append, ih, List.flatMap_singleton, slice_numbered,
      Nat.succ_mul, List.take_add]

/-- What a page shows stands in the list between its offset and that of the next one. -/
theorem mem_slice_numbered_iff {limit k : Nat} {xs : List α} {a : α} :
    a ∈ (numbered limit k).slice xs ↔
      ∃ i, k * limit ≤ i ∧ i < (k + 1) * limit ∧ xs[i]? = some a := by
  have hnext : (k + 1) * limit = k * limit + limit := Nat.succ_mul k limit
  rw [slice_numbered, List.mem_iff_getElem?]
  simp only [List.getElem?_take, List.getElem?_drop, Option.ite_none_right_eq_some]
  constructor
  · rintro ⟨i, hi, hget⟩
    exact ⟨k * limit + i, Nat.le_add_right _ _, by omega, hget⟩
  · rintro ⟨i, hle, hlt, hget⟩
    refine ⟨i - k * limit, by omega, ?_⟩
    rwa [Nat.add_sub_cancel' hle]

/-- Among the pages with a positive limit one shows a given member of a list without
repetitions: that whose number is the quotient of the place by the limit. -/
theorem existsUnique_page {limit : Nat} (hlimit : 0 < limit) {xs : List α} (hxs : xs.Nodup) {a : α}
    (ha : a ∈ xs) : ∃! k, a ∈ (numbered limit k).slice xs := by
  obtain ⟨i, hi, rfl⟩ := List.getElem_of_mem ha
  refine ⟨i / limit, mem_slice_numbered_iff.2 ⟨i, ?_, ?_, List.getElem?_eq_getElem hi⟩, ?_⟩
  · exact Nat.div_mul_le_self i limit
  · rw [Nat.add_mul, Nat.one_mul]
    exact Nat.lt_div_mul_add hlimit
  · intro k hk
    obtain ⟨j, hle, hlt, hget⟩ := mem_slice_numbered_iff.1 hk
    obtain ⟨hj, hget⟩ := List.getElem?_eq_some_iff.1 hget
    obtain rfl : j = i := hxs.getElem_inj_iff.1 hget
    exact (Nat.div_eq_of_lt_le hle hlt).symm

end Page

namespace Store

/-! ## The order of listings

Rows are listed newest first, and those of one time with the greater identifier first. This leaves
no two rows in the same place. -/

/-- Whether a row is listed before another one: its record is later, or as late, and then the row
was inserted after the other one. -/
def Newer (a b : Stored Record) : Prop :=
  b.record.time < a.record.time ∨ (a.record.time = b.record.time ∧ b.id < a.id)

/-- The order of a listing is transitive. -/
theorem listedBefore_trans (a b c : Stored Record) (hab : listedBefore a b = true)
    (hbc : listedBefore b c = true) : listedBefore a c = true := by
  unfold listedBefore at *
  rw [decide_eq_true_eq] at *
  omega

/-- The order of a listing is total. -/
theorem listedBefore_total (a b : Stored Record) :
    (listedBefore a b || listedBefore b a) = true := by
  unfold listedBefore
  rw [Bool.or_eq_true, decide_eq_true_eq, decide_eq_true_eq]
  omega

/-- No two rows of a kind have the same identifier. -/
theorem ids_rows (s : Store) (kind : RecordKind) :
    (s.rows kind).Pairwise fun a b => a.id ≠ b.id := by
  cases kind <;>
  · refine List.pairwise_map.2 ((Table.ascending _).imp ?_)
    intro a b hlt
    exact Nat.ne_of_lt hlt

/-- Rows whose records have no leap seconds for their times are listed in a total order. -/
theorem newestFirst_strict {s : Store} {kind : RecordKind}
    (hleap : ∀ r ∈ s.rows kind, r.record.time.isLeap = false) :
    (s.newestFirst kind).Pairwise Newer := by
  have hperm := s.newestFirst_perm kind
  have hids : (s.newestFirst kind).Pairwise fun a b => a.id ≠ b.id :=
    hperm.symm.pairwise (s.ids_rows kind) Ne.symm
  have hsorted : (s.newestFirst kind).Pairwise fun a b => listedBefore a b = true :=
    List.pairwise_mergeSort listedBefore_trans listedBefore_total _
  refine (hsorted.and hids).imp_of_mem ?_
  intro a b ha hb ⟨hle, hne⟩
  have haleap := hleap a (hperm.mem_iff.1 ha)
  have hbleap := hleap b (hperm.mem_iff.1 hb)
  unfold listedBefore at hle
  rw [decide_eq_true_eq] at hle
  rcases hle with hlt | ⟨heq, hid⟩
  · exact .inl ((Instant.lt_iff_toNanos_lt hbleap haleap).2 hlt)
  · refine .inr ⟨?_, by omega⟩
    rw [← Instant.ofNanos_toNanos haleap, ← heq, Instant.ofNanos_toNanos hbleap]

/-- A listing has no row twice, because identifiers differ. -/
theorem nodup_newestFirst (s : Store) (kind : RecordKind) : (s.newestFirst kind).Nodup := by
  refine (s.newestFirst_perm kind).nodup_iff.2 ((s.ids_rows kind).imp ?_)
  rintro a _ hne rfl
  exact hne rfl

/-! ## Pages -/

/-- **Paging covers every record once.** After any history the total of a kind is the number of its
live records. There is one list of the rows of the kind, each later than the next or as late and
inserted after it, and each page is a contiguous part of it: behind the offset, as long as the limit
and the total allow. So the pages that follow one another make it up, and each row is on exactly one
of them. -/
theorem pages_cover (changes : List Change) (kind : RecordKind) :
    let s := ofHistory changes
    s.total kind = (live changes).countP (·.kind = kind) ∧
    (s.newestFirst kind).Perm (s.rows kind) ∧ (s.newestFirst kind).Pairwise Newer ∧
    (∀ page, s.list kind page =
        ((s.newestFirst kind).drop (max page.offset 0).toNat).take (max page.limit 0).toNat ∧
      ((s.list kind page).length : Int) =
        min (max page.limit 0) (max (s.total kind - max page.offset 0) 0)) ∧
    ∀ limit : Nat, 0 < limit →
      (∀ n, s.total kind ≤ n * limit →
        (List.range n).flatMap (fun k => s.list kind (.numbered limit k)) =
          s.newestFirst kind) ∧
      ∀ r ∈ s.rows kind, ∃! k : Nat, r ∈ s.list kind (.numbered limit k) := by
  intro s
  have hperm := s.newestFirst_perm kind
  have htotal : (s.newestFirst kind).length = s.total kind := hperm.length_eq
  refine ⟨?_, hperm, newestFirst_strict fun r hr => isLeap_of_mem_rows hr, fun page => ⟨?_, ?_⟩,
    fun limit hlimit => ⟨fun n hn => ?_, fun r hr => ?_⟩⟩
  -- the rows of a kind hold its live records
  · rw [total, ← List.length_map (·.record), records_ofHistory, List.countP_eq_length_filter]
  -- a page is a slice of the list, newest first
  · have htoNat (n : Int) : (max n 0).toNat = n.toNat := by omega
    rw [htoNat, htoNat, list, Page.slice]
  · rw [← htotal, list, Page.length_slice]
  -- enough pages one after the other are the whole list
  · rw [← htotal] at hn
    exact (Page.flatMap_slice limit n _).trans (List.take_of_length_le hn)
  · exact Page.existsUnique_page hlimit (s.nodup_newestFirst kind) (hperm.mem_iff.2 hr)

/-- Three log records, two of them of one time, inserted one after the other. -/
def threeLogs : List Change :=
  [.insertion .epoch [.log (logAt 5), .log (logAt 9)], .insertion .epoch [.log (logAt 5)]]

/-- The theorem for three log records on pages of two: the first page is full, the second is not.
-/
theorem pages_cover_of_threeLogs :
    (ofHistory threeLogs).total .logs = 3 ∧
    (List.range 2).flatMap (fun k => (ofHistory threeLogs).list .logs (.numbered 2 k)) =
      (ofHistory threeLogs).newestFirst .logs ∧
    ∀ r ∈ (ofHistory threeLogs).rows .logs,
      ∃! k : Nat, r ∈ (ofHistory threeLogs).list .logs (.numbered 2 k) := by
  obtain ⟨htotal, -, -, -, hpages⟩ := pages_cover threeLogs .logs
  have hfirst : storedForms [.log (logAt 5), .log (logAt 9)] =
      [.log (logAt 5), .log (logAt 9)] :=
    storedForms_eq_self (by decide) (by decide)
  have hsecond : storedForms [.log (logAt 5)] = [.log (logAt 5)] :=
    storedForms_eq_self (by decide) (by decide)
  have hthree : (ofHistory threeLogs).total .logs = 3 := by
    rw [htotal, threeLogs, live, Change.inserts, hfirst, live, Change.inserts, hsecond]
    rfl
  obtain ⟨hcover, honce⟩ := hpages 2 (by decide)
  exact ⟨hthree, hcover 2 (by rw [hthree]; decide), honce⟩

end Store

end Telemetry
