/-!
Scanning a query for delimiters that stand outside quotes.

A quoted section starts with a single or a double quote and ends with the same one; inside it a
backslash keeps the next character from ending it. The scanner walks over a text once and reports
the characters outside of such sections with their positions. Everything that looks for a
delimiter rests on that report.
-/

set_option autoImplicit false

namespace Telemetry.Query.Quoted

/-! ## The scanner -/

/-- Where the scanner is. -/
inductive State where
  | outside
  | inside (quote : Char)
  | escaped (quote : Char)
  deriving DecidableEq, Repr

/-- The two quotes. -/
def isQuote (c : Char) : Bool := c == '"' || c == '\''

/-- The state behind a character. -/
def State.next : State → Char → State
  | .outside, c => if isQuote c then .inside c else .outside
  | .inside q, c => if c = '\\' then .escaped q else if c = q then .outside else .inside q
  | .escaped q, _ => .inside q

/-- Whether a character that is met in this state is outside of quotes. -/
def State.reports : State → Char → Bool
  | .outside, c => !isQuote c
  | _, _ => false

/-- The characters outside of quotes, counted from a position on. -/
def unquotedFrom : State → Nat → List Char → List (Nat × Char)
  | _, _, [] => []
  | s, i, c :: cs =>
    if s.reports c then (i, c) :: unquotedFrom (s.next c) (i + 1) cs
    else unquotedFrom (s.next c) (i + 1) cs

/-- The characters of a text outside of quotes, with their positions. -/
def unquoted (text : List Char) : List (Nat × Char) := unquotedFrom .outside 0 text

/-! ## Searching -/

/-- The first position of a character outside of quotes. -/
def find? (target : Char) (text : List Char) : Option Nat :=
  ((unquoted text).find? fun p => p.2 == target).map (·.1)

/-- The last position of a character outside of quotes. -/
def findLast? (target : Char) (text : List Char) : Option Nat :=
  ((unquoted text).filter fun p => p.2 == target).getLast?.map (·.1)

/-- The pieces between separators outside of quotes, from a state on. -/
def splitFrom (separator : Char) : State → List Char → List (List Char)
  | _, [] => [[]]
  | s, c :: cs =>
    if s.reports c && c == separator then [] :: splitFrom separator (s.next c) cs
    else
      match splitFrom separator (s.next c) cs with
      | [] => [[c]]
      | piece :: pieces => (c :: piece) :: pieces

/-- The pieces of a text between separators outside of quotes. -/
def split (separator : Char) (text : List Char) : List (List Char) :=
  splitFrom separator .outside text

/-- The position at which parentheses balance, `depth` of them being open before the first of the
characters given. -/
def balance : Nat → List (Nat × Char) → Option Nat
  | _, [] => none
  | depth, (i, c) :: rest =>
    if c = '(' then balance (depth + 1) rest
    else if c = ')' then
      match depth with
      | 0 => none
      | 1 => some i
      | depth + 2 => balance (depth + 1) rest
    else balance depth rest

/-- The position of the parenthesis that closes the one at `opening`. -/
def closing? (text : List Char) (opening : Nat) : Option Nat :=
  balance 0 ((unquoted text).dropWhile fun p => p.1 < opening)

/-! ## Positions lie in the text -/

theorem mem_unquotedFrom {s : State} {i : Nat} {text : List Char} {p : Nat × Char}
    (h : p ∈ unquotedFrom s i text) : i ≤ p.1 ∧ p.1 < i + text.length := by
  induction text generalizing s i with
  | nil => simp [unquotedFrom] at h
  | cons c cs ih =>
    simp only [unquotedFrom] at h
    split at h
    · rcases List.mem_cons.1 h with rfl | h
      · simp
      · have := ih h
        simp only [List.length_cons]
        omega
    · have := ih h
      simp only [List.length_cons]
      omega

theorem find?_lt {target : Char} {text : List Char} {i : Nat} (h : find? target text = some i) :
    i < text.length := by
  obtain ⟨p, hp, rfl⟩ := Option.map_eq_some_iff.1 h
  have := mem_unquotedFrom (List.mem_of_find?_eq_some hp)
  omega

end Telemetry.Query.Quoted
