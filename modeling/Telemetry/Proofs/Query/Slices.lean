import Mathlib.Algebra.GroupWithZero.Nat
import Telemetry.Error
import Telemetry.Proofs.Query.Scanning

/-!
Slices of a text by offsets of bytes, and the scanner with such offsets.

A program that has its texts in UTF-8 takes them apart at offsets of bytes. It is stopped by a slice
that begins or ends inside of a character, or beyond the end of the text, or that ends before it
begins (`exists_slice_eq_ok_iff`). The offset of a position is the size of the characters before it,
so a slice between positions is always there (`slice_offset`), and what the scanner finds by offsets
it finds at the offsets of the positions (`find?_eq_map`, `closing?_eq_map`).
-/

set_option autoImplicit false

namespace Telemetry.Query.Offsets

open Quoted (State balance)

/-! ## Slices

A slice of a text goes by offsets of bytes and is no text where an offset lies beyond the end or
inside of a character. Here that is an outcome of its own, so that it can be shown not to occur.
-/

/-- The size of a text in bytes. -/
def size (text : List Char) : Nat := (text.map Char.utf8Size).sum

/-- Cuts a text behind its first bytes, if these are whole characters. -/
def cut? : Nat → List Char → Option (List Char × List Char)
  | 0, text => some ([], text)
  | _ + 1, [] => none
  | n + 1, c :: cs =>
    if c.utf8Size ≤ n + 1 then
      (cut? (n + 1 - c.utf8Size) cs).map fun parts => (c :: parts.1, parts.2)
    else none

/-- What stops a reader: an error, or a slice that cannot be taken. -/
inductive Stop where
  | error (e : Error)
  | slice

/-- The slice between two offsets. -/
def slice (text : List Char) (start stop : Nat) : Except Stop (List Char) :=
  match (cut? stop text).bind fun parts => cut? start parts.1 with
  | some (_, piece) => .ok piece
  | none => .error .slice

theorem size_append (a b : List Char) : size (a ++ b) = size a + size b := by
  rw [size, size, size, List.map_append, List.sum_append]

theorem size_cons (c : Char) (cs : List Char) : size (c :: cs) = c.utf8Size + size cs := rfl

/-- A text is cut where a part of it ends. -/
theorem cut?_size (a b : List Char) : cut? (size a) (a ++ b) = some (a, b) := by
  induction a with
  | nil => cases b <;> rfl
  | cons c cs ih =>
    obtain ⟨n, hn⟩ := Nat.exists_eq_succ_of_ne_zero (Nat.ne_of_gt c.utf8Size_pos)
    have hrest : n + size cs + 1 - c.utf8Size = size cs := by omega
    rw [size_cons, hn, Nat.succ_add, List.cons_append, cut?, if_pos (by omega), hrest, ih]
    rfl

/-- A text can be cut exactly at the ends of its parts, so never inside of a character. -/
theorem cut?_eq_some_iff {n : Nat} {text a b : List Char} :
    cut? n text = some (a, b) ↔ text = a ++ b ∧ n = size a := by
  refine ⟨fun h => ?_, by rintro ⟨rfl, rfl⟩; exact cut?_size a b⟩
  -- conversely, the cut takes whole characters as long as bytes are left
  induction text generalizing n a with
  | nil =>
    cases n with
    | zero => cases h; exact ⟨rfl, rfl⟩
    | succ n => cases h
  | cons c cs ih =>
    cases n with
    | zero => cases h; exact ⟨rfl, rfl⟩
    | succ n =>
      rw [cut?] at h
      split at h
      next hle =>
        obtain ⟨parts, hparts, heq⟩ := Option.map_eq_some_iff.1 h
        cases heq
        obtain ⟨rfl, hn⟩ := ih hparts
        refine ⟨rfl, ?_⟩
        rw [size_cons]
        omega
      next => cases h

/-- A slice is taken between whole characters, and in no other case. -/
theorem slice_eq_ok_iff {text piece : List Char} {start stop : Nat} :
    slice text start stop = .ok piece ↔
      ∃ a b, text = a ++ (piece ++ b) ∧ start = size a ∧ stop = size (a ++ piece) := by
  constructor
  · intro h
    rw [slice] at h
    split at h
    next front piece' hcut =>
      cases h
      obtain ⟨parts, hstop, hstart⟩ := Option.bind_eq_some_iff.1 hcut
      obtain ⟨rfl, rfl⟩ := cut?_eq_some_iff.1 hstop
      obtain ⟨hfront, rfl⟩ := cut?_eq_some_iff.1 hstart
      exact ⟨front, parts.2, by rw [hfront, List.append_assoc], rfl, by rw [hfront]⟩
    next => cases h
  · rintro ⟨a, b, rfl, rfl, rfl⟩
    rw [slice, ← List.append_assoc, cut?_size, Option.bind_some, cut?_size]

/-- The size of a text is that of its encoding. -/
theorem size_eq_utf8ByteSize (text : List Char) :
    size text = (String.ofList text).utf8ByteSize := by
  induction text with
  | nil => rfl
  | cons c cs ih =>
    rw [size_cons, ih, String.ofList_cons, String.utf8ByteSize_append,
      String.utf8ByteSize_singleton]

/-- Only the empty text has no bytes. -/
theorem eq_nil_of_size_eq_zero {text : List Char} (h : size text = 0) : text = [] := by
  cases text with
  | nil => rfl
  | cons c cs =>
    have hpos := c.utf8Size_pos
    rw [size_cons] at h
    omega

/-- The positions of a text are the sizes of what stands before some character. -/
theorem isValid_iff {text : List Char} {n : Nat} :
    (String.Pos.Raw.mk n).IsValid (String.ofList text) ↔ ∃ a b, text = a ++ b ∧ n = size a := by
  rw [String.Pos.Raw.isValid_iff_exists_append]
  constructor
  · rintro ⟨s, t, htext, hn⟩
    refine ⟨s.toList, t.toList, ?_, ?_⟩
    · rw [← String.toList_append, ← htext, String.toList_ofList]
    · rw [size_eq_utf8ByteSize, String.ofList_toList]
      exact congrArg String.Pos.Raw.byteIdx hn
  · rintro ⟨a, b, rfl, rfl⟩
    exact ⟨String.ofList a, String.ofList b, String.ofList_append,
      String.Pos.Raw.ext (size_eq_utf8ByteSize a)⟩

/-- A slice can be taken exactly between two positions of the text, in their order. -/
theorem exists_slice_eq_ok_iff {text : List Char} {start stop : Nat} :
    (∃ piece, slice text start stop = .ok piece) ↔ start ≤ stop ∧
      (String.Pos.Raw.mk start).IsValid (String.ofList text) ∧
      (String.Pos.Raw.mk stop).IsValid (String.ofList text) := by
  simp only [slice_eq_ok_iff, isValid_iff]
  constructor
  · rintro ⟨piece, a, b, rfl, rfl, rfl⟩
    refine ⟨?_, ⟨a, piece ++ b, rfl, rfl⟩, a ++ piece, b, (List.append_assoc _ _ _).symm, rfl⟩
    rw [size_append]
    omega
  · rintro ⟨hle, ⟨a, b, rfl, rfl⟩, a', b', hsplit, rfl⟩
    rcases List.append_eq_append_iff.1 hsplit with ⟨e, rfl, rfl⟩ | ⟨e, rfl, rfl⟩
    · exact ⟨e, a, b', rfl, rfl, rfl⟩
    · -- the second position is not before the first, so it is the same
      obtain rfl : e = [] := by
        apply eq_nil_of_size_eq_zero
        rw [size_append] at hle
        omega
      exact ⟨[], a', b, by simp, by simp, by simp⟩

/-! ## Offsets of positions

A position counts characters and an offset counts bytes. Each position has an offset, and slices
at such offsets are what `take` and `drop` give. -/

/-- The offset of a character, or of the end. -/
def offset (text : List Char) (i : Nat) : Nat := size (text.take i)

theorem offset_zero (text : List Char) : offset text 0 = 0 := rfl

theorem offset_add (text : List Char) (i j : Nat) :
    offset text (i + j) = offset text i + offset (text.drop i) j := by
  rw [offset, List.take_add, size_append, offset, offset]

theorem offset_succ {text : List Char} {i : Nat} {c : Char} (h : text[i]? = some c) :
    offset text (i + 1) = offset text i + c.utf8Size := by
  rw [offset, List.take_add_one, h, size_append, offset]
  rfl

/-- Between the offsets of two positions there is always a slice: what stands between the
positions. -/
theorem slice_offset (text : List Char) {i j : Nat} (h : i ≤ j) :
    slice text (offset text i) (offset text j) = .ok ((text.take j).drop i) := by
  have hfront : text.take i ++ (text.take j).drop i = text.take j := by
    have htake : text.take i = (text.take j).take i := by rw [List.take_take, Nat.min_eq_left h]
    rw [htake, List.take_append_drop]
  rw [slice_eq_ok_iff]
  refine ⟨text.take i, text.drop j, ?_, rfl, ?_⟩
  · rw [← List.append_assoc, hfront, List.take_append_drop]
  · rw [hfront, offset]

/-- Up to the offset of a position the slice is what stands before it. -/
theorem slice_to (text : List Char) (i : Nat) :
    slice text 0 (offset text i) = .ok (text.take i) :=
  slice_offset text (Nat.zero_le i)

/-- From the offset of a position the slice is what stands from it on. -/
theorem slice_from (text : List Char) (i : Nat) :
    slice text (offset text i) (size text) = .ok (text.drop i) := by
  have hall : text.take (max i text.length) = text := List.take_of_length_le (by omega)
  have hend : offset text (max i text.length) = size text := by rw [offset, hall]
  have hslice := slice_offset text (Nat.le_max_left i text.length)
  rwa [hend, hall] at hslice

/-! ## Scanning

The scanner is written once more with offsets of bytes, as slices need them. -/

/-- The characters outside of quotes, with their offsets, from a state of the scan and the offset it
is at. -/
def unquotedFrom : State → Nat → List Char → List (Nat × Char)
  | _, _, [] => []
  | s, i, c :: cs =>
    if s.reports c then (i, c) :: unquotedFrom (s.next c) (i + c.utf8Size) cs
    else unquotedFrom (s.next c) (i + c.utf8Size) cs

/-- The characters of a text outside of quotes, with their offsets. -/
def unquoted (text : List Char) : List (Nat × Char) := unquotedFrom .outside 0 text

/-- The offset of the first one of a character. -/
def find? (target : Char) (text : List Char) : Option Nat :=
  ((unquoted text).find? fun p => p.2 == target).map (·.1)

/-- The offset of the last one of a character. -/
def findLast? (target : Char) (text : List Char) : Option Nat :=
  ((unquoted text).filter fun p => p.2 == target).getLast?.map (·.1)

/-- The offset of the parenthesis that closes the one at `opening`. -/
def closing? (text : List Char) (opening : Nat) : Option Nat :=
  balance 0 ((unquoted text).dropWhile fun p => p.1 < opening)

/-- The slices between separators, the first of which begins at `start`. -/
def pieces (separator : Char) (text : List Char) :
    Nat → List (Nat × Char) → Except Stop (List (List Char))
  | start, [] => do return [← slice text start (size text)]
  | start, (i, c) :: rest => do
    if c = separator then
      let piece ← slice text start i
      return piece :: (← pieces separator text (i + c.utf8Size) rest)
    else pieces separator text start rest

/-- The pieces of a text between separators outside of quotes. -/
def split (separator : Char) (text : List Char) : Except Stop (List (List Char)) :=
  pieces separator text 0 (unquoted text)

/-! ### Offsets of what is found

What is found at an offset is what the scanner of characters finds at the position of that offset.
-/

/-- A character with its offset instead of its position. -/
def place (text : List Char) (p : Nat × Char) : Nat × Char := (offset text p.1, p.2)

/-- Scanning with offsets finds what scanning with positions does, each at the offset of its
position. -/
theorem unquotedFrom_eq_map (s : State) (text : List Char) (i o : Nat) :
    unquotedFrom s o text =
      (Quoted.unquotedFrom s i text).map fun p => (o + offset text (p.1 - i), p.2) := by
  -- on the text: position and offset count on together, by one and by the bytes of the character
  induction text generalizing s i o with
  | nil => rfl
  | cons c cs ih =>
    have hrest : (Quoted.unquotedFrom (s.next c) (i + 1) cs).map
          (fun p => (o + offset (c :: cs) (p.1 - i), p.2)) =
        (Quoted.unquotedFrom (s.next c) (i + 1) cs).map
          fun p => (o + c.utf8Size + offset cs (p.1 - (i + 1)), p.2) := by
      apply List.map_congr_left
      intro p hp
      -- what follows has positions behind that of the first character
      obtain ⟨k, hk⟩ := Nat.exists_eq_add_of_le (Quoted.mem_unquotedFrom hp).1
      have hleft : p.1 - i = k + 1 := by omega
      have hright : p.1 - (i + 1) = k := by omega
      rw [hleft, hright, offset, List.take_succ_cons, size_cons, Nat.add_assoc, offset]
    rw [unquotedFrom, Quoted.unquotedFrom, ih _ (i + 1)]
    split
    · rw [List.map_cons, hrest, Nat.sub_self, offset_zero]
      rfl
    · rw [hrest]

theorem unquoted_eq_map (text : List Char) :
    unquoted text = (Quoted.unquoted text).map (place text) := by
  rw [unquoted, unquotedFrom_eq_map .outside text 0 0]
  simp only [Nat.sub_zero, Nat.zero_add]
  rfl

/-- The first character of a kind is found at the offset of its position. -/
theorem find?_eq_map (target : Char) (text : List Char) :
    find? target text = (Quoted.find? target text).map (offset text) := by
  rw [find?, unquoted_eq_map, List.find?_map, Option.map_map, Quoted.find?, Option.map_map]
  rfl

theorem findLast?_eq_map (target : Char) (text : List Char) :
    findLast? target text = (Quoted.findLast? target text).map (offset text) := by
  rw [findLast?, unquoted_eq_map, List.filter_map, List.getLast?_map, Option.map_map,
    Quoted.findLast?, Option.map_map]
  rfl

/-- Whether parentheses balance depends on the characters only, not on how places are counted. -/
theorem balance_map (f : Nat → Nat) (depth : Nat) (ps : List (Nat × Char)) :
    balance depth (ps.map fun p => (f p.1, p.2)) = (balance depth ps).map f := by
  induction ps generalizing depth with
  | nil => rfl
  | cons p ps ih =>
    obtain ⟨i, c⟩ := p
    rw [List.map_cons]
    by_cases hopen : c = '('
    · subst hopen
      rw [Quoted.balance_open, Quoted.balance_open, ih]
    by_cases hclose : c = ')'
    · subst hclose
      match depth with
      | 0 => rfl
      | 1 => rfl
      | depth + 2 => rw [Quoted.balance_close, Quoted.balance_close, ih]
    · rw [Quoted.balance_other _ _ _ hopen hclose, Quoted.balance_other _ _ _ hopen hclose, ih]

/-- Offsets are ordered like positions. -/
theorem offset_lt_iff {text : List Char} {i j : Nat} (hi : i < text.length) :
    offset text i < offset text j ↔ i < j := by
  rcases Nat.lt_or_ge i j with hlt | hge
  · obtain ⟨k, rfl⟩ := Nat.exists_eq_add_of_le (Nat.succ_le_of_lt hlt)
    have hpos := (text[i]).utf8Size_pos
    rw [offset_add, offset_succ (List.getElem?_eq_getElem hi)]
    omega
  · obtain ⟨k, rfl⟩ := Nat.exists_eq_add_of_le hge
    rw [offset_add]
    omega

/-- The parenthesis that closes is found at the offset of its position. -/
theorem closing?_eq_map (text : List Char) (opening : Nat) :
    closing? text (offset text opening) =
      (Quoted.closing? text opening).map (offset text) := by
  have hdrop (ps : List (Nat × Char)) (h : ∀ p ∈ ps, p.1 < text.length) :
      (ps.map (place text)).dropWhile (fun p => p.1 < offset text opening) =
        (ps.dropWhile fun p => p.1 < opening).map (place text) := by
    induction ps with
    | nil => rfl
    | cons p ps ih =>
      obtain ⟨hp, hps⟩ := List.forall_mem_cons.1 h
      simp only [List.map_cons, List.dropWhile_cons, place, offset_lt_iff hp]
      split
      · exact ih hps
      · rfl
  rw [closing?, unquoted_eq_map, hdrop _ fun _ => Quoted.lt_of_mem_unquoted, Quoted.closing?,
    ← balance_map]
  rfl

/-- What is split by offsets are the same pieces. -/
theorem pieces_eq_ok (separator : Char) (s : State) (front current behind : List Char) :
    pieces separator (front ++ (current ++ behind)) (size front)
        (unquotedFrom s (size (front ++ current)) behind) =
      .ok ((Quoted.splitFrom separator s behind).modifyHead (current ++ ·)) := by
  induction behind generalizing s front current with
  | nil =>
    have hslice : slice (front ++ (current ++ [])) (size front) (size (front ++ (current ++ []))) =
        .ok current := slice_eq_ok_iff.2 ⟨front, [], rfl, rfl, by rw [List.append_nil]⟩
    rw [unquotedFrom, pieces, hslice, Quoted.splitFrom]
    simp only [List.modifyHead_cons, List.append_nil]
    rfl
  | cons c cs ih =>
    have hone : size [c] = c.utf8Size := rfl
    have hsize : size (front ++ current) + c.utf8Size = size (front ++ (current ++ [c])) := by
      rw [← List.append_assoc, size_append _ [c], hone]
    have htext : front ++ (current ++ c :: cs) = front ++ (current ++ [c]) ++ cs := by simp
    -- as long as there is no separator, the current piece goes on
    have hmore := ih (s.next c) front (current ++ [c])
    rw [← hsize, ← List.append_assoc, ← htext] at hmore
    rw [unquotedFrom, Quoted.splitFrom]
    obtain ⟨piece, others, hsplit⟩ := List.exists_cons_of_ne_nil
      (Quoted.splitFrom_ne_nil separator (s.next c) cs)
    by_cases hsep : (s.reports c && c == separator) = true
    -- at a separator the current piece is cut off, and an empty one goes on behind it
    · rw [if_pos hsep]
      rw [Bool.and_eq_true, beq_iff_eq] at hsep
      have hslice : slice (front ++ (current ++ c :: cs)) (size front) (size (front ++ current)) =
          .ok current := slice_eq_ok_iff.2 ⟨front, c :: cs, rfl, rfl, rfl⟩
      have hnext := ih (s.next c) (front ++ (current ++ [c])) []
      rw [List.append_nil, List.nil_append, ← hsize, ← htext] at hnext
      rw [if_pos hsep.1, pieces, if_pos hsep.2, hslice]
      simp only [hnext, hsplit, List.modifyHead_cons, List.nil_append, List.append_nil]
      rfl
    · rw [if_neg hsep, hsplit]
      rw [hsplit] at hmore
      have hsame : pieces separator (front ++ (current ++ c :: cs)) (size front)
          (if s.reports c then (size (front ++ current), c) ::
              unquotedFrom (s.next c) (size (front ++ current) + c.utf8Size) cs
            else unquotedFrom (s.next c) (size (front ++ current) + c.utf8Size) cs) =
          pieces separator (front ++ (current ++ c :: cs)) (size front)
            (unquotedFrom (s.next c) (size (front ++ current) + c.utf8Size) cs) := by
        split
        next hreports =>
          have hne : c ≠ separator := by
            intro heq
            rw [hreports, heq, beq_self_eq_true] at hsep
            exact hsep rfl
          rw [pieces, if_neg hne]
        next => rfl
      rw [hsame, hmore]
      simp only [List.modifyHead_cons, List.append_assoc, List.singleton_append]

/-- Splitting by offsets gives the same pieces as splitting by positions, and each slice is there.
-/
theorem split_eq_ok (separator : Char) (text : List Char) :
    split separator text = .ok (Quoted.split separator text) := by
  have hpieces := pieces_eq_ok separator .outside [] [] text
  rw [split, Quoted.split]
  obtain ⟨piece, others, hsplit⟩ := List.exists_cons_of_ne_nil
    (Quoted.splitFrom_ne_nil separator .outside text)
  rw [hsplit] at hpieces ⊢
  exact hpieces

/-! ### What is found -/

/-- What is found is the character that was looked for. -/
theorem getElem?_of_find? {target : Char} {text : List Char} {i : Nat}
    (h : Quoted.find? target text = some i) : text[i]? = some target := by
  obtain ⟨a, b, rfl, -, rfl⟩ := Quoted.exists_append_of_find? h
  simp

theorem getElem?_of_findLast? {target : Char} {text : List Char} {i : Nat}
    (h : Quoted.findLast? target text = some i) : text[i]? = some target := by
  obtain ⟨a, b, rfl, -, rfl, -⟩ := Quoted.exists_append_of_findLast? h
  simp

/-- The parenthesis that closes one stands behind it. -/
theorem getElem?_of_closing? {a behind : List Char} (ha : Quoted.Closed a) {close : Nat}
    (h : Quoted.closing? (a ++ '(' :: behind) a.length = some close) :
    a.length < close ∧ (a ++ '(' :: behind)[close]? = some ')' := by
  obtain ⟨inner, rest, rfl, -, -, rfl⟩ := Quoted.exists_append_of_closing? ha h
  refine ⟨by omega, ?_⟩
  have htext : a ++ '(' :: (inner ++ ')' :: rest) = (a ++ '(' :: inner) ++ ')' :: rest := by simp
  have hclose : a.length + 1 + inner.length = (a ++ '(' :: inner).length := by
    rw [List.length_append, List.length_cons, Nat.add_assoc, Nat.add_comm 1]
  rw [htext, hclose, List.getElem?_append_right (Nat.le_refl _), Nat.sub_self]
  rfl

/-- Behind a character of one byte a slice begins at its offset and one. -/
theorem offset_add_one {text : List Char} {i : Nat} {c : Char} (h : text[i]? = some c)
    (hc : c.utf8Size = 1) : offset text i + 1 = offset text (i + 1) := by
  rw [offset_succ h, hc]

end Telemetry.Query.Offsets
