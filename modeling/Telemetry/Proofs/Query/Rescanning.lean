import Mathlib.Order.Bounds.Basic
import Telemetry.Proofs.Query.Slices

/-!
Parts of a text that are scanned on their own.

The reader cuts a text at a delimiter that stands outside of quotes, and scans what it has cut off
from its beginning again. Nothing changes by that: behind such a delimiter the scanner is outside of
quotes, as it is at the beginning of a text, so it reports of the rest what it reports of it within
the whole (`shift_unquoted_drop`). What stands before a position is reported in the same way
whatever follows (`unquoted_take`).

Two consequences are about what is found at delimiters. Splitting cuts at the separators outside of
quotes and at no other place (`split_separates`). The parenthesis that closes one is the first place
at which as many are closed as opened (`balance_eq_some_iff`); this is an induction over what the
scanner reports, whose positions ascend. All of it holds of positions and of offsets of bytes.
-/

set_option autoImplicit false

namespace Telemetry.Query.Quoted

/-! ## Parts

A scan that begins anew behind a reported character reports what the scan of the whole text
reports there. -/

/-- The scanner reports what is no quote, as long as it is outside of quotes. -/
theorem State.reports_iff {s : State} {c : Char} :
    s.reports c = true ↔ s = .outside ∧ isQuote c = false := by
  cases s <;> simp [State.reports]

/-- What is reported, counted from a position further ahead. -/
def shift (n : Nat) (ps : List (Nat × Char)) : List (Nat × Char) := ps.map fun p => (n + p.1, p.2)

/-- Counting positions from further on moves what is found. -/
theorem unquotedFrom_add (s : State) (n i : Nat) (text : List Char) :
    unquotedFrom s (n + i) text = shift n (unquotedFrom s i text) := by
  induction text generalizing s i with
  | nil => rfl
  | cons c cs ih =>
    rw [unquotedFrom, unquotedFrom, Nat.add_assoc, ih]
    split <;> rfl

/-- What is reported ascends. -/
theorem pairwise_unquotedFrom (s : State) (i : Nat) (text : List Char) :
    (unquotedFrom s i text).Pairwise fun p q => p.1 < q.1 := by
  induction text generalizing s i with
  | nil => exact .nil
  | cons c cs ih =>
    rw [unquotedFrom]
    split
    · exact .cons (fun p hp => (mem_unquotedFrom hp).1) (ih _ _)
    · exact ih _ _

/-- A character that is reported stands behind a closed part. -/
theorem exists_append_of_mem_unquoted {text : List Char} {p : Nat × Char} (h : p ∈ unquoted text) :
    ∃ a b, text = a ++ p.2 :: b ∧ Closed a ∧ isQuote p.2 = false ∧ p.1 = a.length := by
  obtain ⟨ps, qs, hsplit⟩ := List.append_of_mem h
  obtain ⟨a, b, htext, hrun, -, hlen, hquote, -⟩ := exists_append_of_unquotedFrom hsplit
  exact ⟨a, b, htext, hrun, hquote, by omega⟩

/-- **Behind a character that is reported, scanning again reports the same.** -/
theorem shift_unquoted_drop {text : List Char} {p : Nat × Char} (h : p ∈ unquoted text) :
    shift (p.1 + 1) (unquoted (text.drop (p.1 + 1))) =
      (unquoted text).filter fun q => p.1 < q.1 := by
  obtain ⟨i, c⟩ := p
  obtain ⟨a, b, rfl, ha, hc, rfl⟩ := exists_append_of_mem_unquoted h
  have hdrop : (a ++ c :: b).drop (a.length + 1) = b := by simp [List.drop_append]
  have hbefore : (unquoted a).filter (fun q => a.length < q.1) = [] := by
    rw [List.filter_eq_nil_iff]
    intro q hq
    have hlt := lt_of_mem_unquoted hq
    rw [decide_eq_true_eq]
    omega
  have hbehind : (unquotedFrom .outside (a.length + 1) b).filter (fun q => a.length < q.1) =
      unquotedFrom .outside (a.length + 1) b :=
    List.filter_eq_self.2 fun q hq => decide_eq_true (mem_unquotedFrom hq).1
  -- the character itself is not behind itself
  rw [hdrop, unquoted_append_cons ha hc, List.filter_append, hbefore, List.nil_append,
    List.filter_cons_of_neg (by simp), hbehind, unquoted, ← unquotedFrom_add, Nat.add_zero]

/-- What stands before a position is reported in the same way whatever follows. -/
theorem unquoted_take (text : List Char) (n : Nat) :
    unquoted (text.take n) = (unquoted text).filter fun q => q.1 < n := by
  have hbefore : (unquoted (text.take n)).filter (fun q => q.1 < n) = unquoted (text.take n) := by
    rw [List.filter_eq_self]
    intro q hq
    have hlt := lt_of_mem_unquoted hq
    rw [List.length_take] at hlt
    exact decide_eq_true (by omega)
  have hbehind (s : State) : (unquotedFrom s (0 + (text.take n).length) (text.drop n)).filter
      (fun q => q.1 < n) = [] := by
    rw [List.filter_eq_nil_iff]
    intro q hq
    have hle := mem_unquotedFrom hq
    rw [List.length_take, List.length_drop] at hle
    rw [decide_eq_true_eq]
    omega
  have hwhole := unquotedFrom_append .outside 0 (text.take n) (text.drop n)
  rw [List.take_append_drop, ← unquoted, ← unquoted] at hwhole
  rw [hwhole, List.filter_append, hbefore, hbehind, List.append_nil]

/-! ## Pieces -/

/-- No piece shows the separator, and each but the last one ends outside of quotes. The first piece
is scanned from the state in which it was met. -/
theorem splitFrom_separates {separator : Char} {s : State} {text piece : List Char}
    {pieces : List (List Char)} (h : splitFrom separator s text = piece :: pieces) :
    separator ∉ visible s piece ∧ (pieces ≠ [] → s.run piece = .outside) ∧
      (∀ p ∈ pieces, separator ∉ visible .outside p) ∧ ∀ p ∈ pieces.dropLast, Closed p := by
  -- on the text, from any state: a character ends the piece, or goes to the front of the next one
  induction text generalizing s piece pieces with
  | nil =>
    cases h
    simp [visible]
  | cons c cs ih =>
    rw [splitFrom] at h
    split at h
    next hsep =>
      rw [Bool.and_eq_true, State.reports_iff] at hsep
      obtain ⟨⟨rfl, hc⟩, -⟩ := hsep
      rw [State.next_outside hc] at h
      obtain ⟨rfl, rfl⟩ := List.cons.inj h
      obtain ⟨first, others, hrest⟩ :=
        List.exists_cons_of_ne_nil (splitFrom_ne_nil separator .outside cs)
      obtain ⟨hfirst, hclosed, hothers, hinit⟩ := ih hrest
      rw [hrest]
      refine ⟨by simp [visible], fun _ => rfl, List.forall_mem_cons.2 ⟨hfirst, hothers⟩, ?_⟩
      cases others with
      | nil => simp
      | cons second others =>
        rw [List.dropLast_cons_cons]
        exact List.forall_mem_cons.2 ⟨hclosed (List.cons_ne_nil _ _), hinit⟩
    next hsep =>
      obtain ⟨first, others, hrest⟩ :=
        List.exists_cons_of_ne_nil (splitFrom_ne_nil separator (s.next c) cs)
      rw [hrest] at h
      obtain ⟨rfl, rfl⟩ := List.cons.inj h
      obtain ⟨hfirst, hclosed, hothers, hinit⟩ := ih hrest
      refine ⟨?_, hclosed, hothers, hinit⟩
      -- the character is either not reported or not the separator
      rw [visible]
      split
      next hreports =>
        rw [List.mem_cons, not_or]
        refine ⟨?_, hfirst⟩
        rintro rfl
        rw [hreports, beq_self_eq_true] at hsep
        exact hsep rfl
      next => exact hfirst

/-- No piece of a split shows the separator, and only the last one may leave a quote open. -/
theorem split_separates (separator : Char) (text : List Char) :
    (∀ piece ∈ split separator text, separator ∉ visible .outside piece) ∧
      ∀ piece ∈ (split separator text).dropLast, Closed piece := by
  rw [split]
  obtain ⟨piece, pieces, hsplit⟩ :=
    List.exists_cons_of_ne_nil (splitFrom_ne_nil separator .outside text)
  obtain ⟨hpiece, hclosed, hpieces, hinit⟩ := splitFrom_separates hsplit
  rw [hsplit]
  refine ⟨List.forall_mem_cons.2 ⟨hpiece, hpieces⟩, ?_⟩
  cases pieces with
  | nil => simp
  | cons second pieces =>
    rw [List.dropLast_cons_cons]
    exact List.forall_mem_cons.2 ⟨hclosed (List.cons_ne_nil _ _), hinit⟩

/-! ## Balance -/

/-- How many of a character are reported up to a position. -/
def shown (target : Char) (ps : List (Nat × Char)) (stop : Nat) : Nat :=
  ps.countP fun p => p.2 == target && p.1 ≤ stop

/-- Whether as many parentheses are closed up to a position as are opened, `depth` of them being
open before. -/
def Balances (depth : Nat) (ps : List (Nat × Char)) (stop : Nat) : Prop :=
  depth + shown '(' ps stop = shown ')' ps stop

section Balances

variable {target c : Char} {depth k stop : Nat} {ps : List (Nat × Char)}

theorem shown_cons_self :
    shown c ((k, c) :: ps) stop = shown c ps stop + if k ≤ stop then 1 else 0 := by
  simp [shown, List.countP_cons]

theorem shown_cons_of_ne (h : c ≠ target) :
    shown target ((k, c) :: ps) stop = shown target ps stop := by
  simp [shown, h]

/-- What is behind the end does not count. -/
theorem shown_of_lt (h : ∀ p ∈ ps, stop < p.1) : shown target ps stop = 0 := by
  rw [shown, List.countP_eq_zero]
  intro p hp
  have hlt := h p hp
  simp only [Bool.and_eq_true, decide_eq_true_eq, not_and]
  omega

theorem balances_open (h : k ≤ stop) :
    Balances depth ((k, '(') :: ps) stop ↔ Balances (depth + 1) ps stop := by
  rw [Balances, Balances, shown_cons_self, shown_cons_of_ne (by decide), if_pos h]
  omega

theorem balances_close (h : k ≤ stop) :
    Balances (depth + 1) ((k, ')') :: ps) stop ↔ Balances depth ps stop := by
  rw [Balances, Balances, shown_cons_self, shown_cons_of_ne (by decide), if_pos h]
  omega

theorem balances_other (hopen : c ≠ '(') (hclose : c ≠ ')') :
    Balances depth ((k, c) :: ps) stop ↔ Balances depth ps stop := by
  rw [Balances, Balances, shown_cons_of_ne hopen, shown_cons_of_ne hclose]

/-- What is open does not balance before anything is reported. -/
theorem not_balances_of_lt (h : ∀ p ∈ ps, stop < p.1) : ¬ Balances (depth + 1) ps stop := by
  rw [Balances, shown_of_lt h, shown_of_lt h]
  omega

/-- So two lists balance at the same positions if they do from a position on before which neither
reports anything. -/
theorem setOf_balances_congr {depth' : Nat} {qs : List (Nat × Char)} (hps : ∀ p ∈ ps, k ≤ p.1)
    (hqs : ∀ q ∈ qs, k ≤ q.1)
    (h : ∀ j, k ≤ j → (Balances (depth + 1) ps j ↔ Balances (depth' + 1) qs j)) :
    {j | Balances (depth + 1) ps j} = {j | Balances (depth' + 1) qs j} := by
  ext j
  by_cases hj : k ≤ j
  · exact h j hj
  · rw [Nat.not_le] at hj
    exact iff_of_false (not_balances_of_lt fun p hp => Nat.lt_of_lt_of_le hj (hps p hp))
      (not_balances_of_lt fun q hq => Nat.lt_of_lt_of_le hj (hqs q hq))

end Balances

/-- **Counting ends at the first position at which the parentheses balance.** -/
theorem balance_eq_some_iff {ps : List (Nat × Char)} (h : ps.Pairwise fun p q => p.1 < q.1)
    (depth i : Nat) :
    balance (depth + 1) ps = some i ↔ IsLeast {j | Balances (depth + 1) ps j} i := by
  -- on what is found, at any depth: parentheses move the depth, and the rest does not matter
  induction ps generalizing depth with
  | nil => simp [balance, Balances, shown, IsLeast]
  | cons p ps ih =>
    obtain ⟨k, c⟩ := p
    obtain ⟨hk, hps⟩ := List.pairwise_cons.1 h
    have hbehind : ∀ p ∈ ps, k ≤ p.1 := fun p hp => Nat.le_of_lt (hk p hp)
    have hfrom : ∀ p ∈ (k, c) :: ps, k ≤ p.1 :=
      List.forall_mem_cons.2 ⟨Nat.le_refl k, hbehind⟩
    by_cases hopen : c = '('
    · subst hopen
      rw [balance_open, ih hps]
      rw [setOf_balances_congr hfrom hbehind fun _ => balances_open]
    by_cases hclose : c = ')'
    · subst hclose
      cases depth with
      | zero =>
        -- the last open parenthesis is closed here, and nothing balances before
        have hleast : IsLeast {j | Balances (0 + 1) ((k, ')') :: ps) j} k := by
          constructor
          · refine (balances_close (Nat.le_refl k)).2 ?_
            rw [Balances, shown_of_lt hk, shown_of_lt hk]
          · intro j hj
            refine Nat.le_of_not_lt fun hlt => not_balances_of_lt (fun p hp => ?_) hj
            exact Nat.lt_of_lt_of_le hlt (hfrom p hp)
        rw [balance_last, Option.some_inj]
        exact ⟨fun hi => hi ▸ hleast, hleast.unique⟩
      | succ depth =>
        rw [balance_close, ih hps, setOf_balances_congr hfrom hbehind fun _ => balances_close]
    · rw [balance_other _ _ _ hopen hclose, ih hps]
      rw [setOf_balances_congr hfrom hbehind fun _ _ => balances_other hopen hclose]

/-- The positions from `opening` on at which the parentheses balance that are reported from there
on. -/
def balancesFrom (opening : Nat) (ps : List (Nat × Char)) : Set Nat :=
  {i | opening ≤ i ∧ Balances 0 (ps.filter fun p => opening ≤ p.1) i}

/-- A parenthesis is closed at the first position at which those from it on balance. -/
theorem balance_dropWhile_eq_some_iff {ps : List (Nat × Char)}
    (h : ps.Pairwise fun p q => p.1 < q.1) {opening : Nat} (hopening : (opening, '(') ∈ ps)
    (i : Nat) : balance 0 (ps.dropWhile fun p => p.1 < opening) = some i ↔
      IsLeast (balancesFrom opening ps) i := by
  obtain ⟨before, behind, rfl⟩ := List.append_of_mem hopening
  obtain ⟨-, hcons, hbefore⟩ := List.pairwise_append.1 h
  obtain ⟨hbehind, hpairwise⟩ := List.pairwise_cons.1 hcons
  have hlt : ∀ p ∈ before, p.1 < opening := fun p hp => hbefore p hp _ List.mem_cons_self
  -- from the parenthesis on, by leaving out what stands before it or by looking at what does not
  have hdrop : (before ++ (opening, '(') :: behind).dropWhile (fun p => p.1 < opening) =
      (opening, '(') :: behind := by
    rw [List.dropWhile_append_of_pos fun p hp => decide_eq_true (hlt p hp),
      List.dropWhile_cons_of_neg (by simp)]
  have hfilter : (before ++ (opening, '(') :: behind).filter (fun p => opening ≤ p.1) =
      (opening, '(') :: behind := by
    have hnone : before.filter (fun p => opening ≤ p.1) = [] := by
      rw [List.filter_eq_nil_iff]
      intro p hp
      rw [decide_eq_true_eq]
      exact Nat.not_le.2 (hlt p hp)
    have hall : behind.filter (fun p => opening ≤ p.1) = behind :=
      List.filter_eq_self.2 fun p hp => decide_eq_true (Nat.le_of_lt (hbehind p hp))
    rw [List.filter_append, hnone, List.nil_append, List.filter_cons_of_pos (by simp), hall]
  -- the parenthesis itself opens the first level
  have hset : balancesFrom opening (before ++ (opening, '(') :: behind) =
      {j | Balances (0 + 1) behind j} := by
    rw [balancesFrom, hfilter]
    ext j
    constructor
    · rintro ⟨hle, hbalances⟩
      exact (balances_open hle).1 hbalances
    · intro hbalances
      have hle : opening ≤ j := by
        refine Nat.le_of_not_lt fun hj => not_balances_of_lt (fun p hp => ?_) hbalances
        exact Nat.lt_trans hj (hbehind p hp)
      exact ⟨hle, (balances_open hle).2 hbalances⟩
  rw [hdrop, balance_open, balance_eq_some_iff hpairwise, hset]

/-- What is found in a text agrees with what is found in its parts. -/
structure Rescans (text : List Char) : Prop where
  before (n : Nat) : unquoted (text.take n) = (unquoted text).filter fun q => q.1 < n
  behind : ∀ p ∈ unquoted text,
    shift (p.1 + 1) (unquoted (text.drop (p.1 + 1))) = (unquoted text).filter fun q => p.1 < q.1
  /-- The pieces make up the text. -/
  joined (separator : Char) : [separator].intercalate (split separator text) = text
  /-- No piece has a separator, on its own. -/
  hidden (separator : Char) :
    ∀ piece ∈ split separator text, ∀ p ∈ unquoted piece, p.2 ≠ separator
  /-- The text is cut nowhere inside of quotes. -/
  closed (separator : Char) : ∀ piece ∈ (split separator text).dropLast, Closed piece
  closing : ∀ opening, (opening, '(') ∈ unquoted text → ∀ i,
    closing? text opening = some i ↔ IsLeast (balancesFrom opening (unquoted text)) i

/-- **A scanner may stop and start again** anywhere outside of quotes, and finds what it would
have found. -/
theorem rescans (text : List Char) : Rescans text where
  before := unquoted_take text
  behind _ := shift_unquoted_drop
  joined separator := intercalate_split separator text
  hidden separator piece hpiece p hp heq := by
    refine (split_separates separator text).1 piece hpiece ?_
    rw [← heq, ← map_snd_unquotedFrom .outside 0]
    exact List.mem_map_of_mem hp
  closed separator := (split_separates separator text).2
  closing _ hopening := balance_dropWhile_eq_some_iff (pairwise_unquotedFrom _ _ _) hopening

end Telemetry.Query.Quoted

/-! ## Offsets of bytes

The same, in the offsets that the reader slices its texts by. -/

namespace Telemetry.Query.Offsets

open Quoted (balancesFrom shift)

/-- What is found is found in the order of the text. -/
theorem pairwise_unquoted (text : List Char) :
    (unquoted text).Pairwise fun p q => p.1 < q.1 := by
  rw [unquoted_eq_map, List.pairwise_map]
  refine (Quoted.pairwise_unquotedFrom .outside 0 text).imp_of_mem fun hp _ hlt => ?_
  exact (offset_lt_iff (Quoted.lt_of_mem_unquoted hp)).2 hlt

/-- Behind a character that is reported, there is a slice, and scanning it reports the same. -/
theorem exists_slice_behind {text : List Char} {p : Nat × Char} (h : p ∈ unquoted text) :
    ∃ rest, slice text (p.1 + p.2.utf8Size) (size text) = .ok rest ∧
      shift (p.1 + p.2.utf8Size) (unquoted rest) = (unquoted text).filter fun q => p.1 < q.1 := by
  rw [unquoted_eq_map] at h ⊢
  obtain ⟨⟨i, c⟩, hp, rfl⟩ := List.mem_map.1 h
  -- the offset stands for a position, and the statement for positions is known
  obtain ⟨a, b, htext, -, -, hlen⟩ := Quoted.exists_append_of_mem_unquoted hp
  have hchar : text[i]? = some c := by
    obtain rfl : i = a.length := hlen
    simp [htext]
  have hstart : offset text i + c.utf8Size = offset text (i + 1) := (offset_succ hchar).symm
  refine ⟨text.drop (i + 1), ?_, ?_⟩
  · rw [place, hstart, slice_from]
  · -- an offset in the rest is that of the same character in the text
    have hplace : shift (offset text (i + 1)) ((Quoted.unquoted (text.drop (i + 1))).map
        (place (text.drop (i + 1)))) =
          (shift (i + 1) (Quoted.unquoted (text.drop (i + 1)))).map (place text) := by
      simp only [shift, List.map_map]
      refine List.map_congr_left fun q _ => ?_
      simp only [Function.comp_apply, place, offset_add text (i + 1)]
    have horder : ((Quoted.unquoted text).filter fun q => i < q.1).map (place text) =
        ((Quoted.unquoted text).map (place text)).filter fun q => offset text i < q.1 := by
      rw [List.filter_map]
      congr 1
      refine List.filter_congr fun q _ => ?_
      simp [place, offset_lt_iff (Quoted.lt_of_mem_unquoted hp)]
    rw [place, hstart, unquoted_eq_map, hplace, Quoted.shift_unquoted_drop hp, horder]

/-- What scanning a piece of a text says of the whole, with offsets of bytes. -/
structure Rescans (text : List Char) : Prop where
  behind : ∀ p ∈ unquoted text, ∃ rest,
    slice text (p.1 + p.2.utf8Size) (size text) = .ok rest ∧
      shift (p.1 + p.2.utf8Size) (unquoted rest) = (unquoted text).filter fun q => p.1 < q.1
  pieces (separator : Char) : split separator text = .ok (Quoted.split separator text)
  closing : ∀ opening, (opening, '(') ∈ unquoted text → ∀ i,
    closing? text opening = some i ↔ IsLeast (balancesFrom opening (unquoted text)) i

theorem rescans (text : List Char) : Rescans text where
  behind _ := exists_slice_behind
  pieces separator := split_eq_ok separator text
  closing _ hopening :=
    Quoted.balance_dropWhile_eq_some_iff (pairwise_unquoted text) hopening

end Telemetry.Query.Offsets

namespace Telemetry.Query

/-- **Scanning a part of a text again agrees with scanning the text**, by positions and by offsets:
in what is reported of it, in where it is split, and in where its parentheses are closed. -/
theorem rescanning (text : List Char) : Quoted.Rescans text ∧ Offsets.Rescans text :=
  ⟨Quoted.rescans text, Offsets.rescans text⟩

/-- A call inside of another one, with parentheses and a character of two bytes in quotes. -/
def nestedCall : List Char := "sum(max(m\x7ba=\"é),(\"\x7d)) by (a)".toList

/-- The outer call is closed behind the inner one, at an offset that is greater by one than the
position, and the inner one reads in the same way on its own. -/
theorem rescanning_nestedCall :
    (3, '(') ∈ Quoted.unquoted nestedCall ∧
    IsLeast (Quoted.balancesFrom 3 (Quoted.unquoted nestedCall)) 20 ∧
    (3, '(') ∈ Offsets.unquoted nestedCall ∧
    IsLeast (Quoted.balancesFrom 3 (Offsets.unquoted nestedCall)) 21 ∧
    Quoted.shift 4 (Quoted.unquoted (nestedCall.drop 4)) =
      (Quoted.unquoted nestedCall).filter fun q => 3 < q.1 := by
  have hposition : (3, '(') ∈ Quoted.unquoted nestedCall := by decide
  have hoffset : (3, '(') ∈ Offsets.unquoted nestedCall := by decide
  obtain ⟨hpositions, hoffsets⟩ := rescanning nestedCall
  exact ⟨hposition, (hpositions.closing 3 hposition 20).1 (by decide), hoffset,
    (hoffsets.closing 3 hoffset 21).1 (by decide), hpositions.behind _ hposition⟩

end Telemetry.Query
