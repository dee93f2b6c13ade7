import Telemetry.Text.Hex

/-!
The part of TOML that a file of settings uses: lines that bind a name to a string, a whole number or
a truth value.

The other forms of TOML (tables, dotted names, arrays, fractions, dates) are refused here, since no
setting can take them. The four forms of strings, the four bases of numbers, quoted names and
comments are all read.
-/

set_option autoImplicit false

namespace Telemetry.Toml

open Text (Hex.value?)

/-! ## Values -/

/-- A value. -/
inductive Value where
  | string (s : String)
  | integer (n : Int)
  | bool (b : Bool)
  deriving DecidableEq, Repr

/-- What is wrong with a file. -/
inductive Fault where
  /-- Reading stops in front of the given text. -/
  | malformed (behind : String)
  | duplicate (name : String)
  deriving DecidableEq, Repr

/-- The fault in words. -/
def Fault.message : Fault → String
  | .malformed behind => "cannot read what starts with: " ++ behind
  | .duplicate name => "duplicate name: " ++ name

/-! ## Characters -/

/-- Whether a character may stand in a comment, and in a string as itself. -/
def isPlain (c : Char) : Bool := c == '\t' || (0x20 ≤ c.toNat && c.toNat != 0x7F)

/-- Whether a character is a blank within a line. -/
def isBlank (c : Char) : Bool := c == ' ' || c == '\t'

/-- Whether a character may stand in a name without quotes. -/
def isNameChar (c : Char) : Bool := c.isAlphanum || c == '-' || c == '_'

/-- The quotation mark of strings with escapes. -/
def quotation : Char := '"'

/-- The apostrophe around strings without escapes. -/
def apostrophe : Char := '\x27'

/-- What stands behind the end of a line, if the text starts with one. -/
def behindNewline? : List Char → Option (List Char)
  | '\n' :: rest => some rest
  | '\r' :: '\n' :: rest => some rest
  | _ => none

/-- What stands behind blanks, a comment and the end of the line. The last line needs no end. -/
def behindLine? (cs : List Char) : Option (List Char) :=
  let cs :=
    match cs.dropWhile isBlank with
    | '#' :: rest => rest.dropWhile isPlain
    | cs => cs
  if cs.isEmpty then some [] else behindNewline? cs

/-! ## Strings -/

/-- The character whose code has so many hexadecimal digits at the head of a text. -/
def coded? (count : Nat) (cs : List Char) : Option (Char × List Char) := do
  let digits ← (cs.take count).mapM Hex.value?
  let n := digits.foldl (fun n d => 16 * n + d) 0
  if digits.length = count ∧ n.isValidChar then return (Char.ofNat n, cs.drop count) else none

/-- The character for what stands behind a backslash. -/
def escaped? : List Char → Option (Char × List Char)
  | 'b' :: rest => some ('\x08', rest)
  | 't' :: rest => some ('\t', rest)
  | 'n' :: rest => some ('\n', rest)
  | 'f' :: rest => some ('\x0c', rest)
  | 'r' :: rest => some ('\r', rest)
  | '"' :: rest => some ('"', rest)
  | '\\' :: rest => some ('\\', rest)
  | 'u' :: rest => coded? 4 rest
  | 'U' :: rest => coded? 8 rest
  | _ => none

/-- A string of one line, behind its opening mark. -/
def line? (mark : Char) : Nat → List Char → Option (List Char × List Char)
  | 0, _ => none
  | _ + 1, [] => none
  | fuel + 1, c :: rest =>
    if c = mark then some ([], rest)
    else do
      let (c, rest) ←
        if c = '\\' ∧ mark = quotation then escaped? rest
        else if isPlain c then some (c, rest)
        else none
      let (cs, rest) ← line? mark fuel rest
      return (c :: cs, rest)

/-- Skips ends of lines and blanks. -/
def skipLines : List Char → List Char
  | '\r' :: '\n' :: rest => skipLines rest
  | c :: rest => if isBlank c || c == '\n' then skipLines rest else c :: rest
  | [] => []

/-- What stands behind a broken line: blanks up to its end, and all blanks and ends of lines that
follow. -/
def behindBreak? (cs : List Char) : Option (List Char) :=
  (behindNewline? (cs.dropWhile isBlank)).map skipLines

/-- A string of several lines, behind its opening marks. Up to two marks may stand anywhere in it,
also in front of the three that close it. -/
def lines? (mark : Char) : Nat → List Char → Option (List Char × List Char)
  | 0, _ => none
  | _ + 1, [] => none
  | fuel + 1, c :: rest =>
    let marks := ((c :: rest).takeWhile (· = mark)).length
    if 3 ≤ marks then
      let inside := min (marks - 3) 2
      some (List.replicate inside mark, (c :: rest).drop (inside + 3))
    else
      let broken := if c = '\\' ∧ mark = quotation then behindBreak? rest else none
      match broken with
      | some rest => lines? mark fuel rest
      | none => do
        let (c, rest) ←
          match behindNewline? (c :: rest) with
          | some rest => some ('\n', rest)
          | none =>
            if c = '\\' ∧ mark = quotation then escaped? rest
            else if isPlain c then some (c, rest)
            else none
        let (cs, rest) ← lines? mark fuel rest
        return (c :: cs, rest)

/-- A string, in any of the four forms. The end of a line right behind three marks is left out. -/
def string? (mark : Char) (cs : List Char) : Option (String × List Char) :=
  let found :=
    match cs with
    | a :: b :: c :: rest =>
      if a = mark ∧ b = mark ∧ c = mark then
        lines? mark (rest.length + 1) ((behindNewline? rest).getD rest)
      else line? mark (cs.length + 1) cs.tail
    | _ => line? mark (cs.length + 1) cs.tail
  found.map fun (text, rest) => (String.ofList text, rest)

/-! ## Numbers -/

/-- The digits of a base up to the first other character, where underscores stand between digits. -/
def moreDigits? (base : Nat) : List Char → Option (List Nat × List Char)
  | [] => some ([], [])
  | '_' :: c :: rest =>
    match (Hex.value? c).filter (· < base) with
    | some d => (moreDigits? base rest).map fun (ds, rest) => (d :: ds, rest)
    | none => none
  | '_' :: [] => none
  | c :: rest =>
    match (Hex.value? c).filter (· < base) with
    | some d => (moreDigits? base rest).map fun (ds, rest) => (d :: ds, rest)
    | none => some ([], c :: rest)

/-- One digit of a base or more. -/
def digits? (base : Nat) : List Char → Option (List Nat × List Char)
  | '_' :: _ => none
  | cs => (moreDigits? base cs).filter fun r => !r.1.isEmpty

/-- A whole number. Only decimal ones may have a sign, and they have no leading zeros. -/
def integer? (cs : List Char) : Option (Int × List Char) := do
  let natural (base : Nat) (cs : List Char) : Option (List Nat × Int × List Char) := do
    let (ds, rest) ← digits? base cs
    return (ds, Int.ofNat (ds.foldl (fun n d => base * n + d) 0), rest)
  let decimal (cs : List Char) : Option (Int × List Char) := do
    let (ds, n, rest) ← natural 10 cs
    if ds.head? = some 0 ∧ 1 < ds.length then none else return (n, rest)
  let (n, rest) ←
    match cs with
    | '0' :: 'x' :: rest => (natural 16 rest).map (·.2)
    | '0' :: 'o' :: rest => (natural 8 rest).map (·.2)
    | '0' :: 'b' :: rest => (natural 2 rest).map (·.2)
    | '+' :: rest => decimal rest
    | '-' :: rest => (decimal rest).map fun (n, rest) => (-n, rest)
    | cs => decimal cs
  if -0x8000000000000000 ≤ n ∧ n < 0x8000000000000000 then return (n, rest) else none

/-! ## Files -/

/-- A value. -/
def value? (cs : List Char) : Option (Value × List Char) :=
  match cs with
  | 't' :: 'r' :: 'u' :: 'e' :: rest => some (.bool true, rest)
  | 'f' :: 'a' :: 'l' :: 's' :: 'e' :: rest => some (.bool false, rest)
  | c :: _ =>
    if c = quotation ∨ c = apostrophe then
      (string? c cs).map fun (s, rest) => (.string s, rest)
    else (integer? cs).map fun (n, rest) => (.integer n, rest)
  | [] => none

/-- A name, with or without quotes. -/
def name? (cs : List Char) : Option (String × List Char) :=
  match cs with
  | [] => none
  | c :: rest =>
    if c = quotation ∨ c = apostrophe then
      (line? c (rest.length + 1) rest).map fun (text, rest) => (String.ofList text, rest)
    else
      let name := cs.takeWhile isNameChar
      if name.isEmpty then none else some (String.ofList name, cs.dropWhile isNameChar)

/-- A name, the sign behind it, a value, and the end of the line. -/
def binding? (cs : List Char) : Option ((String × Value) × List Char) := do
  let (name, rest) ← name? cs
  match rest.dropWhile isBlank with
  | '=' :: rest =>
    let (value, rest) ← value? (rest.dropWhile isBlank)
    let rest ← behindLine? rest
    return ((name, value), rest)
  | _ => none

/-- The bindings of lines. Each line takes a character or more, so the length of the text is fuel
enough. -/
def bindings : Nat → List (String × Value) → List Char → Except Fault (List (String × Value))
  | 0, found, _ => .ok found.reverse
  | fuel + 1, found, cs =>
    match cs.dropWhile isBlank with
    | [] => .ok found.reverse
    | cs =>
      match behindLine? cs with
      | some rest => bindings fuel found rest
      | none =>
        match binding? cs with
        | none => .error (.malformed (String.ofList (cs.takeWhile isPlain)))
        | some (b, rest) =>
          if found.any fun f => f.1 == b.1 then .error (.duplicate b.1)
          else bindings fuel (b :: found) rest

/-- The bindings of a file, in order. A byte order mark in front of it is skipped. -/
def read (cs : List Char) : Except Fault (List (String × Value)) :=
  let cs :=
    match cs with
    | c :: rest => if c.toNat = 0xFEFF then rest else cs
    | [] => []
  bindings (cs.length + 1) [] cs

end Telemetry.Toml
