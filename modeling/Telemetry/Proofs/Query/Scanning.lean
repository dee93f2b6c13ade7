import Telemetry.Query.Quoted

/-!
The theory of the scanner: what it reports of a text that is put together from parts.

The scanner is a machine that reads characters, so it reads `a ++ b` by reading `a` and going on
from where that left it. `State.run` is where it is left, and `visible` are the characters that it
reports, without their positions. A part behind which the scanner is outside of quotes again, a
`Closed` one, can therefore be looked at on its own; searching and splitting are stated for texts
whose parts are closed.
-/

set_option autoImplicit false

namespace Telemetry.Query.Quoted

/-! ## Reading part by part

The scanner reads a text from left to right with a state that tells whether it is inside of
quotes. What it does with two texts one behind the other follows from what it does with each. -/

/-- The state behind a text. -/
def State.run (s : State) (text : List Char) : State := text.foldl State.next s

@[simp] theorem State.run_nil (s : State) : s.run [] = s := rfl

@[simp] theorem State.run_cons (s : State) (c : Char) (cs : List Char) :
    s.run (c :: cs) = (s.next c).run cs := rfl

@[simp] theorem State.run_append (s : State) (a b : List Char) :
    s.run (a ++ b) = (s.run a).run b := List.foldl_append

/-- What is found lies in the text. -/
theorem lt_of_mem_unquoted {text : List Char} {p : Nat × Char} (h : p ∈ unquoted text) :
    p.1 < text.length := by
  have hlt := (mem_unquotedFrom h).2
  rwa [Nat.zero_add] at hlt

/-- Two texts are scanned one after the other, the second one from the state and the position
behind the first. -/
theorem unquotedFrom_append (s : State) (i : Nat) (a b : List Char) :
    unquotedFrom s i (a ++ b) =
      unquotedFrom s i a ++ unquotedFrom (s.run a) (i + a.length) b := by
  induction a generalizing s i with
  | nil => simp [unquotedFrom]
  | cons c cs ih =>
    have hlen : i + 1 + cs.length = i + (c :: cs).length := by
      rw [List.length_cons]
      omega
    simp only [List.cons_append, unquotedFrom, State.run_cons, ih, hlen]
    split <;> rfl

/-- The characters that are reported, from a state on. -/
def visible : State → List Char → List Char
  | _, [] => []
  | s, c :: cs => if s.reports c then c :: visible (s.next c) cs else visible (s.next c) cs

/-- Without their positions, the characters outside of quotes are those that are visible. -/
theorem map_snd_unquotedFrom (s : State) (i : Nat) (text : List Char) :
    (unquotedFrom s i text).map (·.2) = visible s text := by
  induction text generalizing s i with
  | nil => rfl
  | cons c cs ih =>
    simp only [unquotedFrom, visible]
    split
    · rw [List.map_cons, ih]
    · exact ih _ _

theorem visible_append (s : State) (a b : List Char) :
    visible s (a ++ b) = visible s a ++ visible (s.run a) b := by
  rw [← map_snd_unquotedFrom s 0, unquotedFrom_append, List.map_append, map_snd_unquotedFrom,
    map_snd_unquotedFrom]

/-! ## Parts that are closed

A part is closed if it leaves the scanner outside of quotes wherever that was before. Texts are
put together from closed parts, so the state need not be followed. -/

/-- Whether the scanner is outside of quotes again behind a text. -/
def Closed (text : List Char) : Prop := State.outside.run text = .outside

instance (text : List Char) : Decidable (Closed text) :=
  inferInstanceAs (Decidable (_ = State.outside))

theorem Closed.append {a b : List Char} (ha : Closed a) (hb : Closed b) : Closed (a ++ b) := by
  rw [Closed, State.run_append, ha, hb]

theorem closed_nil : Closed [] := rfl

/-- Behind a text that leaves no quote open, the next one is seen as on its own. -/
theorem visible_append_of_closed {a : List Char} (ha : Closed a) (b : List Char) :
    visible .outside (a ++ b) = visible .outside a ++ visible .outside b := by
  rw [visible_append, ha]

theorem State.next_outside {c : Char} (hc : isQuote c = false) :
    State.outside.next c = .outside := by
  rw [State.next, hc]
  rfl

theorem State.reports_outside {c : Char} (hc : isQuote c = false) :
    State.outside.reports c = true := by
  rw [State.reports, hc]
  rfl

theorem Closed.cons {c : Char} (hc : isQuote c = false) {cs : List Char} (h : Closed cs) :
    Closed (c :: cs) := by
  rw [Closed, State.run_cons, State.next_outside hc]
  exact h

theorem visible_cons_of_no_quote {c : Char} (hc : isQuote c = false) (cs : List Char) :
    visible .outside (c :: cs) = c :: visible .outside cs := by
  rw [visible, if_pos (State.reports_outside hc), State.next_outside hc]

/-- A text without quotes is closed. -/
theorem closed_of_no_quote {text : List Char} (h : ∀ c ∈ text, isQuote c = false) :
    Closed text := by
  induction text with
  | nil => rfl
  | cons c cs ih =>
    exact .cons (h c List.mem_cons_self) (ih fun d hd => h d (List.mem_cons_of_mem _ hd))

/-- A text without quotes is reported as a whole. -/
theorem visible_of_no_quote {text : List Char} (h : ∀ c ∈ text, isQuote c = false) :
    visible .outside text = text := by
  induction text with
  | nil => rfl
  | cons c cs ih =>
    rw [visible_cons_of_no_quote (h c List.mem_cons_self),
      ih fun d hd => h d (List.mem_cons_of_mem _ hd)]

/-! ## Searching

A part hides a character if the scanner never reports it there. What is found in a text with such
parts around it is found behind them. -/

/-- Whether a closed text does not show a character. -/
structure Hides (target : Char) (text : List Char) : Prop where
  closed : Closed text
  not_mem : target ∉ visible .outside text

theorem Hides.append {target : Char} {a b : List Char} (ha : Hides target a)
    (hb : Hides target b) : Hides target (a ++ b) where
  closed := ha.closed.append hb.closed
  not_mem := by
    rw [visible_append_of_closed ha.closed, List.mem_append, not_or]
    exact ⟨ha.not_mem, hb.not_mem⟩

theorem hides_of_no_quote {target : Char} {text : List Char}
    (hquote : ∀ c ∈ text, isQuote c = false) (hnot : target ∉ text) : Hides target text where
  closed := closed_of_no_quote hquote
  not_mem := by rwa [visible_of_no_quote hquote]

/-- What is reported of a text does not have the characters that it hides. -/
theorem Hides.ne {target : Char} {text : List Char} (h : Hides target text) {i : Nat}
    {p : Nat × Char} (hp : p ∈ unquotedFrom .outside i text) : p.2 ≠ target := by
  rintro rfl
  refine h.not_mem ?_
  rw [← map_snd_unquotedFrom .outside i]
  exact List.mem_map_of_mem hp

/-- What a text hides is not found in it. -/
theorem Hides.find?_eq_none {target : Char} {text : List Char} (h : Hides target text) :
    find? target text = none := by
  rw [find?, Option.map_eq_none_iff, List.find?_eq_none]
  intro p hp
  rw [beq_iff_eq]
  exact h.ne hp

/-- Behind a closed text, what is reported goes on at the position where it ends. -/
theorem unquotedFrom_append_cons {a : List Char} (ha : Closed a) {c : Char}
    (hc : isQuote c = false) (i : Nat) (b : List Char) :
    unquotedFrom .outside i (a ++ c :: b) =
      unquotedFrom .outside i a ++
        (i + a.length, c) :: unquotedFrom .outside (i + a.length + 1) b := by
  rw [unquotedFrom_append, ha, unquotedFrom, if_pos (State.reports_outside hc),
    State.next_outside hc]

/-- A character between two texts is found at its position, if the first one leaves no quote open.
-/
theorem unquoted_append_cons {a : List Char} (ha : Closed a) {c : Char} (hc : isQuote c = false)
    (b : List Char) :
    unquoted (a ++ c :: b) =
      unquoted a ++ (a.length, c) :: unquotedFrom .outside (a.length + 1) b := by
  rw [unquoted, unquotedFrom_append_cons ha hc, Nat.zero_add]
  rfl

/-- Behind a part that hides it, a character is found where it stands. -/
theorem find?_append_cons {target : Char} {a : List Char} (ha : Hides target a)
    (htarget : isQuote target = false) (b : List Char) :
    find? target (a ++ target :: b) = some a.length := by
  have hnone : (unquoted a).find? (fun p => p.2 == target) = none :=
    Option.map_eq_none_iff.1 ha.find?_eq_none
  rw [find?, unquoted_append_cons ha.closed htarget, List.find?_append, hnone, Option.none_or,
    List.find?_cons_of_pos (by simp), Option.map_some]

/-- Before a part that hides it, a character is the last one of its kind. -/
theorem findLast?_append_cons {target : Char} {a b : List Char} (ha : Closed a)
    (htarget : isQuote target = false) (hb : Hides target b) :
    findLast? target (a ++ target :: b) = some a.length := by
  have hnone : (unquotedFrom .outside (a.length + 1) b).filter (fun p => p.2 == target) = [] := by
    rw [List.filter_eq_nil_iff]
    intro p hp
    rw [beq_iff_eq]
    exact hb.ne hp
  rw [findLast?, unquoted_append_cons ha htarget, List.filter_append,
    List.filter_cons_of_pos (by simp), hnone, List.getLast?_concat, Option.map_some]

/-! ## Splitting

Pieces are cut at the separators that the scanner reports, so joining them again gives the text,
and texts that hide the separator are the pieces of what they are joined to. -/

/-- Splitting never yields nothing. -/
theorem splitFrom_ne_nil (separator : Char) (s : State) (text : List Char) :
    splitFrom separator s text ≠ [] := by
  induction text generalizing s with
  | nil => simp [splitFrom]
  | cons c cs ih =>
    rw [splitFrom]
    split
    · exact List.cons_ne_nil _ _
    · split <;> exact List.cons_ne_nil _ _

/-- A text that does not show the separator stays whole; what follows it is split from the state
behind it. -/
theorem splitFrom_append (separator : Char) {s : State} {a : List Char}
    (hnot : separator ∉ visible s a) (b : List Char) :
    splitFrom separator s (a ++ b) =
      (splitFrom separator (s.run a) b).modifyHead (a ++ ·) := by
  -- induction on the text that stays whole, from whatever state the scanner is in
  induction a generalizing s with
  | nil =>
    rw [List.nil_append, State.run_nil]
    cases splitFrom separator s b <;> rfl
  | cons c cs ih =>
    rw [visible] at hnot
    have hsep : ¬ (s.reports c && c == separator) = true := by
      intro h
      rw [Bool.and_eq_true, beq_iff_eq] at h
      rw [if_pos h.1, h.2] at hnot
      exact hnot List.mem_cons_self
    have hrest : separator ∉ visible (s.next c) cs := by
      intro h
      split at hnot
      · exact hnot (List.mem_cons_of_mem _ h)
      · exact hnot h
    rw [List.cons_append, splitFrom, if_neg hsep, ih hrest, State.run_cons]
    obtain ⟨piece, pieces, hb⟩ :=
      List.exists_cons_of_ne_nil (splitFrom_ne_nil separator ((s.next c).run cs) b)
    rw [hb]
    rfl

/-- The pieces between separators are the parts that were joined by them, where all of the parts
hide the separator. -/
theorem split_intercalate {separator : Char} (hsep : isQuote separator = false)
    {parts : List (List Char)} (hne : parts ≠ []) (h : ∀ part ∈ parts, Hides separator part) :
    split separator ([separator].intercalate parts) = parts := by
  induction parts with
  | nil => exact absurd rfl hne
  | cons part parts ih =>
    obtain ⟨hclosed, hnot⟩ := h part List.mem_cons_self
    rcases parts with _ | ⟨part', parts⟩
    · have happ := splitFrom_append separator hnot []
      rw [List.append_nil] at happ
      rw [List.intercalate_singleton, split, happ]
      simp [splitFrom]
    -- the part stays whole, and behind it the scanner is outside, so the separator counts
    · have hreports : (State.outside.reports separator && separator == separator) = true := by
        rw [State.reports_outside hsep, beq_self_eq_true]
        rfl
      have hrest := ih (List.cons_ne_nil _ _) fun p hp => h p (List.mem_cons_of_mem _ hp)
      rw [split] at hrest
      rw [List.intercalate_cons_cons, List.append_assoc, List.singleton_append, split,
        splitFrom_append separator hnot, hclosed, splitFrom, if_pos hreports,
        State.next_outside hsep, hrest]
      simp

/-- The pieces of a text make the text again, from any state on. -/
theorem intercalate_splitFrom (separator : Char) (s : State) (text : List Char) :
    -- a separator opens a new piece, and any other character is put before the first one
    [separator].intercalate (splitFrom separator s text) = text := by
  induction text generalizing s with
  | nil => rfl
  | cons c cs ih =>
    rw [splitFrom]
    obtain ⟨piece, pieces, hsplit⟩ :=
      List.exists_cons_of_ne_nil (splitFrom_ne_nil separator (s.next c) cs)
    have hcs := ih (s.next c)
    rw [hsplit] at hcs ⊢
    split
    next hsep =>
      rw [Bool.and_eq_true, beq_iff_eq] at hsep
      rw [List.intercalate_cons_cons, hcs, hsep.2]
      rfl
    next =>
      rcases pieces with _ | ⟨piece', pieces⟩
      · rw [List.intercalate_singleton] at hcs ⊢
        rw [hcs]
      · rw [List.intercalate_cons_cons] at hcs ⊢
        rw [← hcs]
        rfl

/-- What is split is joined again by the separator. -/
theorem intercalate_split (separator : Char) (text : List Char) :
    [separator].intercalate (split separator text) = text :=
  intercalate_splitFrom separator .outside text

/-! ## Balancing

The search for the closing parenthesis counts depth. A balanced part comes back to the depth it
began with and never below, so the search goes past it. -/

section Balance

variable (depth i : Nat) (rest : List (Nat × Char))

theorem balance_open : balance depth ((i, '(') :: rest) = balance (depth + 1) rest := by
  rw [balance.eq_def]
  rfl

theorem balance_close : balance (depth + 2) ((i, ')') :: rest) = balance (depth + 1) rest := rfl

/-- The one that takes the last level away is the one that is looked for. -/
theorem balance_last : balance 1 ((i, ')') :: rest) = some i := rfl

/-- Other characters do not count. -/
theorem balance_other {c : Char} (hopen : c ≠ '(') (hclose : c ≠ ')') :
    balance depth ((i, c) :: rest) = balance depth rest := by
  rw [balance.eq_def]
  simp only [if_neg hopen, if_neg hclose]

end Balance

/-- Whether counting parentheses passes over a closed text without a change. -/
structure Balanced (text : List Char) : Prop where
  closed : Closed text
  passes (depth i : Nat) (rest : List (Nat × Char)) :
    balance (depth + 1) (unquotedFrom .outside i text ++ rest) = balance (depth + 1) rest

/-- A text without parentheses is balanced. -/
theorem balanced_of_hides {text : List Char} (hopen : Hides '(' text) (hclose : Hides ')' text) :
    Balanced text where
  closed := hopen.closed
  passes depth i rest := by
    have hpass (ps : List (Nat × Char)) (h : ∀ p ∈ ps, p.2 ≠ '(' ∧ p.2 ≠ ')') :
        balance (depth + 1) (ps ++ rest) = balance (depth + 1) rest := by
      induction ps with
      | nil => rfl
      | cons p ps ih =>
        obtain ⟨hp, hps⟩ := List.forall_mem_cons.1 h
        rw [List.cons_append, balance_other _ _ _ hp.1 hp.2, ih hps]
    exact hpass _ fun p hp => ⟨hopen.ne hp, hclose.ne hp⟩

theorem Balanced.append {a b : List Char} (ha : Balanced a) (hb : Balanced b) :
    Balanced (a ++ b) where
  closed := ha.closed.append hb.closed
  passes depth i rest := by
    rw [unquotedFrom_append, ha.closed, List.append_assoc, ha.passes, hb.passes]

/-- What is reported of a text in parentheses, and behind them. -/
theorem unquotedFrom_parentheses {text : List Char} (h : Closed text) (i : Nat) (b : List Char) :
    unquotedFrom .outside i ('(' :: (text ++ ')' :: b)) =
      (i, '(') :: (unquotedFrom .outside (i + 1) text ++
        (i + 1 + text.length, ')') :: unquotedFrom .outside (i + 1 + text.length + 1) b) := by
  have hopen : State.outside.next '(' = .outside := State.next_outside rfl
  rw [unquotedFrom, if_pos (State.reports_outside rfl), hopen, unquotedFrom_append_cons h rfl]

/-- A balanced text in parentheses is balanced. -/
theorem Balanced.parentheses {text : List Char} (h : Balanced text) :
    Balanced ('(' :: (text ++ [')'])) where
  closed := .cons rfl (h.closed.append (.cons rfl closed_nil))
  passes depth i rest := by
    rw [unquotedFrom_parentheses h.closed, List.cons_append, balance_open, List.append_assoc,
      h.passes, List.cons_append, balance_close]
    rfl

/-- A parenthesis is closed where those behind it balance. -/
theorem closing?_eq_balance {a : List Char} (ha : Closed a) (behind : List Char) :
    closing? (a ++ '(' :: behind) a.length =
      balance 1 (unquotedFrom .outside (a.length + 1) behind) := by
  -- what stands before the parenthesis is dropped, and no more than that
  have hbefore : ∀ p ∈ unquoted a, decide (p.1 < a.length) = true :=
    fun p hp => decide_eq_true (lt_of_mem_unquoted hp)
  rw [closing?, unquoted_append_cons ha rfl, List.dropWhile_append_of_pos hbefore,
    List.dropWhile_cons_of_neg (by simp), balance_open]

/-- A parenthesis is closed behind the balanced text that follows it. -/
theorem closing?_append {a inner : List Char} (ha : Closed a) (hinner : Balanced inner)
    (b : List Char) :
    closing? (a ++ '(' :: (inner ++ ')' :: b)) a.length = some (a.length + 1 + inner.length) := by
  rw [closing?_eq_balance ha, unquotedFrom_append_cons hinner.closed rfl, hinner.passes,
    balance_last]

/-! ## Taking a text apart where the scanner reports

A report of the scanner at a position takes the text apart there, with the scanner outside of
quotes on both sides. -/

/-- What is reported of a text divides the text itself: at each character reported, the scanner is
outside of quotes. -/
theorem exists_append_of_unquotedFrom {s : State} {i : Nat} {text : List Char}
    {ps qs : List (Nat × Char)} {p : Nat × Char} (h : unquotedFrom s i text = ps ++ p :: qs) :
    ∃ a b, text = a ++ p.2 :: b ∧ s.run a = .outside ∧ unquotedFrom s i a = ps ∧
      p.1 = i + a.length ∧ isQuote p.2 = false ∧ visible .outside b = qs.map (·.2) := by
  -- induction on the text, from whatever state and position the scanner has
  induction text generalizing s i ps with
  | nil =>
    rw [unquotedFrom] at h
    exact absurd h.symm (by simp)
  | cons c cs ih =>
    rw [unquotedFrom] at h
    by_cases hreports : s.reports c = true
    · rw [if_pos hreports] at h
      have hstate : s = .outside ∧ isQuote c = false := by
        cases s with
        | outside => exact ⟨rfl, Bool.not_eq_true' _ ▸ hreports⟩
        | inside => cases hreports
        | escaped => cases hreports
      obtain ⟨rfl, hc⟩ := hstate
      rw [State.next_outside hc] at h
      cases ps with
      | nil =>
        rw [List.nil_append, List.cons.injEq] at h
        obtain ⟨rfl, rfl⟩ := h
        exact ⟨[], cs, rfl, rfl, rfl, rfl, hc, (map_snd_unquotedFrom _ _ _).symm⟩
      | cons q ps =>
        rw [List.cons_append, List.cons.injEq] at h
        obtain ⟨rfl, hrest⟩ := h
        obtain ⟨a, b, rfl, hrun, hps, hp, hquote, hqs⟩ := ih hrest
        refine ⟨c :: a, b, rfl, ?_, ?_, ?_, hquote, hqs⟩
        · rw [State.run_cons, State.next_outside hc, hrun]
        · rw [unquotedFrom, if_pos hreports, State.next_outside hc, hps]
        · rw [hp, List.length_cons]
          omega
    · rw [if_neg hreports] at h
      obtain ⟨a, b, rfl, hrun, hps, hp, hquote, hqs⟩ := ih h
      refine ⟨c :: a, b, rfl, hrun, ?_, ?_, hquote, hqs⟩
      · rw [unquotedFrom, if_neg hreports, hps]
      · rw [hp, List.length_cons]
        omega

/-- A character is found behind a part that hides it. -/
theorem exists_append_of_find? {target : Char} {text : List Char} {i : Nat}
    (h : find? target text = some i) :
    ∃ a b, text = a ++ target :: b ∧ Hides target a ∧ a.length = i := by
  obtain ⟨p, hp, rfl⟩ := Option.map_eq_some_iff.1 h
  obtain ⟨htarget, ps, qs, hsplit, hps⟩ := List.find?_eq_some_iff_append.1 hp
  obtain rfl : p.2 = target := beq_iff_eq.1 htarget
  obtain ⟨a, b, rfl, hrun, ha, hlen, -, -⟩ := exists_append_of_unquotedFrom hsplit
  refine ⟨a, b, rfl, ⟨hrun, fun hmem => ?_⟩, by omega⟩
  rw [← map_snd_unquotedFrom .outside 0, ha] at hmem
  obtain ⟨q, hq, heq⟩ := List.mem_map.1 hmem
  have hne := hps q hq
  rw [heq, beq_self_eq_true] at hne
  cases hne

/-- The last one of a character is found before a part that does not show it. -/
theorem exists_append_of_findLast? {target : Char} {text : List Char} {i : Nat}
    (h : findLast? target text = some i) :
    ∃ a b, text = a ++ target :: b ∧ Closed a ∧ a.length = i ∧ target ∉ visible .outside b := by
  obtain ⟨p, hp, rfl⟩ := Option.map_eq_some_iff.1 h
  obtain ⟨ys, hfilter⟩ := List.getLast?_eq_some_iff.1 hp
  obtain ⟨l₁, l₂, hsplit, -, hl₂⟩ := List.filter_eq_append_iff.1 hfilter
  obtain ⟨m₁, m₂, rfl, -, htarget, hm₂⟩ := List.filter_eq_cons_iff.1 hl₂
  obtain rfl : p.2 = target := beq_iff_eq.1 htarget
  rw [← List.append_assoc] at hsplit
  obtain ⟨a, b, rfl, hrun, -, hlen, -, hqs⟩ := exists_append_of_unquotedFrom hsplit
  refine ⟨a, b, rfl, hrun, by omega, fun hmem => ?_⟩
  rw [hqs] at hmem
  obtain ⟨q, hq, heq⟩ := List.mem_map.1 hmem
  have hne := List.filter_eq_nil_iff.1 hm₂ q hq
  rw [heq, beq_self_eq_true] at hne
  exact hne rfl

/-- What is not found is not visible. -/
theorem hides_of_find?_eq_none {target : Char} {text : List Char} (h : find? target text = none) :
    target ∉ visible .outside text := by
  intro hmem
  rw [← map_snd_unquotedFrom .outside 0] at hmem
  obtain ⟨p, hp, rfl⟩ := List.mem_map.1 hmem
  have hne := List.find?_eq_none.1 (Option.map_eq_none_iff.1 h) p hp
  rw [beq_self_eq_true] at hne
  exact hne rfl

/-! ## Nesting

The same count over the reported characters alone. It turns a successful search back into a
statement about the text before the parenthesis that was found. -/

/-- How many parentheses are open behind some characters, `depth` of them being open before; none if
one is closed that is not open. -/
def nesting : Nat → List Char → Option Nat
  | depth, [] => some depth
  | depth, c :: cs =>
    if c = '(' then nesting (depth + 1) cs
    else if c = ')' then
      match depth with
      | 0 => none
      | depth + 1 => nesting depth cs
    else nesting depth cs

/-- Whether each parenthesis that a text shows is closed or opened in it. -/
def Matched (text : List Char) : Prop := nesting 0 (visible .outside text) = some 0

instance (text : List Char) : Decidable (Matched text) :=
  inferInstanceAs (Decidable (_ = some 0))

section Nesting

variable {depth : Nat}

theorem nesting_open (cs : List Char) : nesting depth ('(' :: cs) = nesting (depth + 1) cs := by
  rw [nesting.eq_def]
  rfl

theorem nesting_close (cs : List Char) : nesting (depth + 1) (')' :: cs) = nesting depth cs := rfl

theorem nesting_other {c : Char} (hopen : c ≠ '(') (hclose : c ≠ ')') (cs : List Char) :
    nesting depth (c :: cs) = nesting depth cs := by
  rw [nesting.eq_def]
  simp only [if_neg hopen, if_neg hclose]

/-- Counting goes on with as many open parentheses as there are behind the characters passed. -/
theorem balance_append {ps : List (Nat × Char)} {k m : Nat} (h : nesting k (ps.map (·.2)) = some m)
    (rest : List (Nat × Char)) :
    balance (k + depth + 1) (ps ++ rest) = balance (m + depth + 1) rest := by
  induction ps generalizing k with
  | nil =>
    obtain rfl := Option.some.inj h
    rfl
  | cons p ps ih =>
    obtain ⟨i, c⟩ := p
    rw [List.map_cons] at h
    rw [List.cons_append]
    -- a parenthesis moves both depths, and no other character moves either
    by_cases hopen : c = '('
    · subst hopen
      rw [nesting_open] at h
      rw [balance_open, ← ih h, Nat.add_right_comm k 1 depth]
    by_cases hclose : c = ')'
    · subst hclose
      cases k with
      | zero => cases h
      | succ k =>
        rw [nesting_close] at h
        rw [← ih h, Nat.add_right_comm k 1 depth, balance_close]
    · rw [nesting_other hopen hclose] at h
      rw [balance_other _ _ _ hopen hclose, ih h]

/-- Counting ends at the first closing parenthesis behind which none is open. -/
theorem exists_append_of_balance {ps : List (Nat × Char)} {j : Nat}
    (h : balance (depth + 1) ps = some j) :
    ∃ qs rs, ps = qs ++ (j, ')') :: rs ∧ nesting depth (qs.map (·.2)) = some 0 := by
  induction ps generalizing depth with
  | nil => cases h
  | cons p ps ih =>
    obtain ⟨i, c⟩ := p
    -- the scan ends at the first closing parenthesis at depth zero, and goes on anywhere else
    by_cases hopen : c = '('
    · subst hopen
      rw [balance_open] at h
      obtain ⟨qs, rs, rfl, hqs⟩ := ih h
      exact ⟨(i, '(') :: qs, rs, rfl, by rw [List.map_cons, nesting_open, hqs]⟩
    by_cases hclose : c = ')'
    · subst hclose
      cases depth with
      | zero =>
        obtain rfl := Option.some.inj h
        exact ⟨[], ps, rfl, rfl⟩
      | succ depth =>
        rw [balance_close] at h
        obtain ⟨qs, rs, rfl, hqs⟩ := ih h
        exact ⟨(i, ')') :: qs, rs, rfl, by rw [List.map_cons, nesting_close, hqs]⟩
    · rw [balance_other _ _ _ hopen hclose] at h
      obtain ⟨qs, rs, rfl, hqs⟩ := ih h
      exact ⟨(i, c) :: qs, rs, rfl, by rw [List.map_cons, nesting_other hopen hclose, hqs]⟩

end Nesting

/-- A text whose parentheses match is balanced, if it leaves no quote open. -/
theorem Balanced.of_matched {text : List Char} (hclosed : Closed text) (h : Matched text) :
    Balanced text where
  closed := hclosed
  passes depth i rest := by
    rw [Matched, ← map_snd_unquotedFrom .outside i] at h
    have happend : balance (0 + depth + 1) (unquotedFrom .outside i text ++ rest) =
        balance (0 + depth + 1) rest := balance_append h rest
    rwa [Nat.zero_add] at happend

/-- Without an opening parenthesis, matched ones are none. -/
theorem not_mem_of_matched {cs : List Char} (h : nesting 0 cs = some 0) (hopen : '(' ∉ cs) :
    ')' ∉ cs := by
  induction cs with
  | nil => exact List.not_mem_nil
  | cons c cs ih =>
    rw [List.mem_cons, not_or] at hopen
    have hclose : c ≠ ')' := by
      rintro rfl
      cases h
    rw [nesting_other (Ne.symm hopen.1) hclose] at h
    rw [List.mem_cons, not_or]
    exact ⟨Ne.symm hclose, ih h hopen.2⟩

/-- What closes a parenthesis is the first closing one behind a matched text. -/
theorem exists_append_of_closing? {a text : List Char} (ha : Closed a) {j : Nat}
    (h : closing? (a ++ '(' :: text) a.length = some j) :
    ∃ inner rest, text = inner ++ ')' :: rest ∧ Closed inner ∧ Matched inner ∧
      j = a.length + 1 + inner.length := by
  rw [closing?_eq_balance ha] at h
  obtain ⟨qs, rs, hsplit, hqs⟩ := exists_append_of_balance h
  obtain ⟨inner, rest, rfl, hrun, hinner, hlen, -, -⟩ := exists_append_of_unquotedFrom hsplit
  rw [← hinner, map_snd_unquotedFrom] at hqs
  exact ⟨inner, rest, rfl, hrun, hqs, hlen⟩

end Telemetry.Query.Quoted
