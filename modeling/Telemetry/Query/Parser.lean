import Telemetry.Query.Catalog
import Telemetry.Query.Quoted
import Telemetry.Text.Blank

/-!
The reader of queries.

A query is a selector, perhaps with a range; a function called with one or with nothing; or an
aggregation of such a query, with a grouping behind it:

    query     := selector range?
               | function '(' (selector range?)? ')'
               | aggregation '(' query ')' (('by' | 'without') '(' labels ')')?
    selector  := metric ('{' (label '=' value (',' label '=' value)*)? '}')?
    range     := '[' duration ']'

Blanks may stand between any two parts. A fault is reported together with the part of the text in
which it was found, and that part is always a piece of the text.
-/

set_option autoImplicit false

namespace Telemetry.Query

open Text (trim trimStart isBlank)
open Time (Duration)

/-! ## Names -/

/-- Letters of ASCII. -/
def isLetter (c : Char) : Bool := ('a' ≤ c && c ≤ 'z') || ('A' ≤ c && c ≤ 'Z')

/-- Digits of ASCII. -/
def isDigit (c : Char) : Bool := '0' ≤ c && c ≤ '9'

/-- Whether a text is the name of a label or of a function: a letter or an underscore, then
letters, digits, underscores and dots. -/
def isLabelName : List Char → Bool
  | [] => false
  | c :: cs =>
    (isLetter c || c == '_') && cs.all fun d => isLetter d || isDigit d || d == '_' || d == '.'

/-- Whether a text is the name of a metric: that of a label, where colons are also letters. -/
def isMetricName : List Char → Bool
  | [] => false
  | c :: cs =>
    (isLetter c || c == '_' || c == ':') &&
      cs.all fun d => isLetter d || isDigit d || d == '_' || d == ':' || d == '.'

/-- An error of the given cause at a part of the query. -/
def fault {α : Type} (cause : QueryFault) (fragment : List Char) : Except Error α :=
  .error (.query cause (String.ofList fragment))

/-! ## Durations -/

/-- Seconds of the units that may follow a plain number. -/
def plainUnit? : Char → Option Nat
  | 's' => some 1
  | 'm' => some 60
  | 'h' => some 3600
  | 'd' => some 86400
  | _ => none

/-- Seconds for a text of digits and one of the plain units; none for any other text. -/
def plainDuration? (text : List Char) : Option (Option Nat) :=
  match text.getLast? with
  | none => none
  | some unit =>
    let digits := text.dropLast
    match plainUnit? unit with
    | none => none
    | some seconds =>
      if digits.isEmpty || !digits.all isDigit then none
      else
        match Text.Integer.unsigned Text.Integer.maxUnsigned64 digits with
        | .error _ => some none
        | .ok n =>
          if Text.Integer.maxUnsigned64 < n * seconds then some none else some (some (n * seconds))

/-- A duration: digits and a plain unit, or the general form. -/
def duration (text : List Char) : Except Error Duration :=
  let trimmed := trim text
  if trimmed.isEmpty then fault .durationEmpty text
  else
    match plainDuration? trimmed with
    | some (some seconds) => .ok (.ofSeconds seconds)
    | some none => fault .durationTooLong text
    | none =>
      match Duration.read trimmed with
      | .ok d => .ok d
      | .error .carry => .error .beyondRange
      | .error f => fault (.durationInvalid f) text

/-! ## Label values -/

/-- The character that a backslash and a character stand for. -/
def unescape : Char → Char
  | 'n' => '\n'
  | 't' => '\t'
  | c => c

/-- The text inside quotes `quote`; `whole` is the quoted text that faults point to. -/
def unquoteInner (quote : Char) (whole : List Char) : List Char → Except Error (List Char)
  | [] => .ok []
  | '\\' :: rest =>
    match rest with
    | [] => fault .escapeDangling whole
    | c :: rest => (unquoteInner quote whole rest).map (unescape c :: ·)
  | c :: rest =>
    if c = quote then fault .quoteNotEscaped whole
    else (unquoteInner quote whole rest).map (c :: ·)

/-- The value that a text stands for: the text inside quotes, or a text that has none. -/
def unquote (raw : List Char) : Except Error (List Char) :=
  match raw with
  | opening :: rest =>
    if Quoted.isQuote opening && rest.getLast? == some opening then
      unquoteInner opening raw rest.dropLast
    else bare
  | [] => bare
where
  /-- A value without quotes. -/
  bare : Except Error (List Char) :=
    if raw.any Quoted.isQuote then fault .valueNotTerminated raw else .ok raw

/-! ## Selectors -/

/-- Adds a constraint `name = value` to those read before. -/
def constraint (labels : Labels) (pair : List Char) : Except Error Labels := do
  let pair := trim pair
  if pair.isEmpty then return labels
  let some eq := Quoted.find? '=' pair | fault .labelValueExpected pair
  let key := trim (pair.take eq)
  let raw := trim (pair.drop (eq + 1))
  if key.getLast? = some '!' ∨ raw.head? = some '~' then fault .matcherUnsupported pair
  if !isLabelName key then fault .labelNameInvalid key
  let value ← unquote raw
  if labels.contains (String.ofList key) then fault .labelDuplicate pair
  return labels.insert (String.ofList key) (String.ofList value)

/-- The constraints between braces. -/
def constraints (body : List Char) : Except Error Labels :=
  (Quoted.split ',' body).foldlM constraint Dictionary.empty

/-- A selector taken apart: the name, and what stands between the braces. -/
def selectorParts (text : List Char) : Except Error (List Char × Option (List Char)) :=
  match Quoted.find? '{' text with
  | none =>
    if (Quoted.find? '}' text).isSome then fault .braceNotOpened text else .ok (text, none)
  | some opening =>
    let behind := text.drop (opening + 1)
    match Quoted.find? '}' behind with
    | none => fault .braceNotClosed text
    | some close =>
      if !(behind.drop (close + 1)).isEmpty then fault .inputAfterSelector (behind.drop (close + 1))
      else .ok (trim (text.take opening), some (behind.take close))

/-- A selector: the name of a metric, and constraints on labels. -/
def selector (text : List Char) : Except Error Query := do
  let text := trim text
  let (name, body) ← selectorParts text
  let labels ←
    match body with
    | none => pure Dictionary.empty
    | some body => constraints body
  if name.isEmpty then fault .metricNameRequired text
  if !isMetricName name then fault .metricNameInvalid name
  return { metric := String.ofList name, labels }

/-- A selector, perhaps with a range behind it. -/
def rangeSelector (text : List Char) : Except Error Query := do
  let text := trim text
  if text.getLast? = some ']' then
    let some opening := Quoted.findLast? '[' text | fault .bracketNotOpened text
    let inner := (text.drop (opening + 1)).dropLast
    let range ← duration inner
    if range.nanos = 0 then fault .rangeNotPositive inner
    let query ← selector (text.take opening)
    return { query with range := some range }
  else if (Quoted.find? '[' text).isSome then fault .bracketNotClosed text
  else selector text

/-! ## Groupings -/

/-- The text behind a keyword, which a blank or a parenthesis has to follow. -/
def behindKeyword? (keyword : String) (text : List Char) : Option (List Char) :=
  if keyword.toList.isPrefixOf text then
    match text.drop keyword.length with
    | [] => none
    | c :: rest => if c = '(' || isBlank c then some (c :: rest) else none
  else none

/-- The names of labels between commas; empty ones are left out. -/
def labelNames (text : List Char) : Except Error (List String) :=
  ((text.splitOn ',').map trim |>.filter fun n => !n.isEmpty).mapM fun name =>
    if isLabelName name then .ok (String.ofList name) else fault .labelNameInvalid name

/-- The grouping behind an aggregation. -/
def grouping (text : List Char) : Except Error Grouping := do
  if text.isEmpty then return .none
  let (make, tail) : (List String → Grouping) × List Char ←
    match behindKeyword? "by" text with
    | some tail => pure (Grouping.on, tail)
    | none =>
      match behindKeyword? "without" text with
      | some tail => pure (Grouping.without, tail)
      | none => fault .groupingExpected text
  let tail := trimStart tail
  if tail.head? ≠ some '(' then fault .groupingNotOpened tail
  let some close := Quoted.closing? tail 0 | fault .parenthesisNotClosed tail
  let behind := tail.drop (close + 1)
  if !(trim behind).isEmpty then fault .inputAfterGrouping behind
  return make (← labelNames ((tail.take close).drop 1))

/-! ## Calls -/

/-- The parts of a call. -/
structure Call where
  name : List Char
  inner : List Char
  rest : List Char

/-- Takes a call apart whose parenthesis opens at a given position. What stands inside is shorter
than the whole. -/
def Call.ofText (text : List Char) (opening : Nat) (h : opening < text.length) :
    Except Error { call : Call // call.inner.length < text.length } := do
  let name := trim (text.take opening)
  if name.isEmpty then fault .functionNameMissing text
  if !isLabelName name then fault .functionNameInvalid name
  let some close := Quoted.closing? text opening | fault .parenthesisNotClosed text
  return ⟨⟨name, (text.take close).drop (opening + 1), trim (text.drop (close + 1))⟩, by
    simp only [List.length_drop, List.length_take]
    omega⟩

/-- A call of a function that is no aggregation. -/
def Call.plain (call : Call) : Except Error Query := do
  if !call.rest.isEmpty then fault .inputAfterCall call.rest
  if (Quoted.find? '(' call.inner).isSome then fault .callNested call.inner
  let query ← if (trim call.inner).isEmpty then pure {} else rangeSelector call.inner
  return { query with function := some (String.ofList call.name) }

/-- The position at which a call opens. A parenthesis behind a brace opens none. -/
def callOpening? (text : List Char) : Option Nat :=
  match Quoted.find? '(' text with
  | none => none
  | some opening => if (Quoted.find? '{' (text.take opening)).isNone then some opening else none

theorem callOpening?_lt {text : List Char} {i : Nat} (h : callOpening? text = some i) :
    i < text.length := by
  unfold callOpening? at h
  split at h
  · contradiction
  next hf =>
    split at h
    · cases h
      exact Quoted.find?_lt hf
    · contradiction

theorem length_trim_le (text : List Char) : (trim text).length ≤ text.length := by
  have h (l : List Char) : (l.dropWhile isBlank).length ≤ l.length :=
    (List.dropWhile_sublist _).length_le
  simp only [trim, Text.trimEnd, trimStart, List.length_reverse]
  have h1 := h (text.dropWhile isBlank).reverse
  have h2 := h text
  simp only [List.length_reverse] at h1
  omega

/-! ## Queries -/

/-- Reads a query; `catalog` says which names are those of aggregations. -/
def expression (catalog : Catalog) (text : List Char) : Except Error Query :=
  match h : callOpening? (trim text) with
  | none => rangeSelector (trim text)
  | some opening =>
    match Call.ofText (trim text) opening (callOpening?_lt h) with
    | .error e => .error e
    | .ok ⟨call, _⟩ =>
      if catalog.isAggregation (String.ofList call.name) then
        if (trim call.inner).isEmpty then fault .aggregationWithoutArgument (trim text)
        else do
          let query ← expression catalog call.inner
          if query.aggregation.isSome then fault .aggregationNested call.inner
          let grouping ← grouping call.rest
          return { query with aggregation := some ⟨String.ofList call.name, grouping⟩ }
      else call.plain
termination_by text.length
decreasing_by exact Nat.lt_of_lt_of_le (by assumption) (length_trim_le text)

/-- Reads a query, with the built-in aggregations. -/
def parse (text : String) : Except Error Query :=
  if (trim text.toList).isEmpty then fault .emptyQuery text.toList
  else expression Catalog.builtin (trim text.toList)

end Telemetry.Query
