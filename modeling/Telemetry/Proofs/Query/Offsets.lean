import Telemetry.Proofs.Query.Fragments
import Telemetry.Proofs.Query.Slices

/-!
The reader of queries by offsets of bytes.

The reader takes texts apart at positions of characters. `Offsets.parse` is the same reader in the
form in which it takes slices at offsets of bytes, any of which might stop it. None does
(`parse_eq`): what it finds are characters of one byte, so one behind the offset of such a character
is the offset of what follows.
-/

set_option autoImplicit false

namespace Telemetry.Query.Offsets

open Quoted (isQuote)
open Text (trim trimStart)
open Time (Duration)

/-! ## The reader

Each part of the reader is written down once more, with each slice that it takes. All that can go
wrong beside the faults of a query is a slice that is no text. -/

/-- A step of the reader that takes no slices. -/
def lift {α : Type} (x : Except Error α) : Except Stop α := x.mapError .error

/-- Reads a plain number of seconds, minutes, hours or days: what stands before the last character
is a slice. -/
def plainDuration? (text : List Char) : Except Stop (Option (Option Nat)) :=
  match text.getLast? with
  | none => return none
  | some unit => do
    let digits ← slice text 0 (size text - unit.utf8Size)
    match plainUnit? unit with
    | none => return none
    | some seconds =>
      if digits.isEmpty || !digits.all isDigit then return none
      else
        match Text.Integer.unsigned Text.Integer.maxUnsigned64 digits with
        | .error _ => return some none
        | .ok n =>
          if Text.Integer.maxUnsigned64 < n * seconds then return some none
          else return some (some (n * seconds))

/-- Reads a length of time. Only its short form takes a slice. -/
def duration (text : List Char) : Except Stop Duration :=
  let trimmed := trim text
  if trimmed.isEmpty then lift (fault .durationEmpty text)
  else do
    match ← plainDuration? trimmed with
    | some (some seconds) => return .ofSeconds seconds
    | some none => lift (fault .durationTooLong text)
    | none =>
      match Duration.read trimmed with
      | .ok d => return d
      | .error .carry => lift (.error .beyondRange)
      | .error f => lift (fault (.durationInvalid f) text)

/-- Reads the value of a label: without its quotes it is a slice that leaves out one byte at each
end. -/
def unquote (raw : List Char) : Except Stop (List Char) :=
  match raw with
  | opening :: rest =>
    if isQuote opening && rest.getLast? == some opening then do
      let inner ← slice raw 1 (size raw - 1)
      lift (unquoteInner opening raw inner)
    else lift (unquote.bare raw)
  | [] => lift (unquote.bare raw)

/-- Reads one constraint: what stands before the sign is one slice, and what stands behind it
another. -/
def constraint (labels : Labels) (pair : List Char) : Except Stop Labels := do
  let pair := trim pair
  if pair.isEmpty then return labels
  let some eq := find? '=' pair | lift (fault .labelValueExpected pair)
  let key := trim (← slice pair 0 eq)
  let raw := trim (← slice pair (eq + 1) (size pair))
  if key.getLast? = some '!' ∨ raw.head? = some '~' then lift (fault .matcherUnsupported pair)
  if !isLabelName key then lift (fault .labelNameInvalid key)
  let value ← unquote raw
  if labels.contains (String.ofList key) then lift (fault .labelDuplicate pair)
  return labels.insert (String.ofList key) (String.ofList value)

/-- Reads the constraints of a selector, with one slice for each. -/
def constraints (body : List Char) : Except Stop Labels := do
  (← split ',' body).foldlM constraint Dictionary.empty

/-- Takes a selector apart by its braces. The offset of the one that closes counts from behind the
one that opens, so the two are added. -/
def selectorParts (text : List Char) : Except Stop (List Char × Option (List Char)) :=
  match find? '{' text with
  | none =>
    if (find? '}' text).isSome then lift (fault .braceNotOpened text) else return (text, none)
  | some opening => do
    match find? '}' (← slice text (opening + 1) (size text)) with
    | none => lift (fault .braceNotClosed text)
    | some close =>
      let close := close + opening + 1
      if close + 1 ≠ size text then
        lift (fault .inputAfterSelector (← slice text (close + 1) (size text)))
      else return (trim (← slice text 0 opening), some (← slice text (opening + 1) close))

/-- Reads a selector, whose parts are slices. -/
def selector (text : List Char) : Except Stop Query := do
  let text := trim text
  let (name, body) ← selectorParts text
  let labels ←
    match body with
    | none => pure Dictionary.empty
    | some body => constraints body
  if name.isEmpty then lift (fault .metricNameRequired text)
  if !isMetricName name then lift (fault .metricNameInvalid name)
  return { metric := String.ofList name, labels }

/-- Reads a selector with a range in brackets behind it. The last byte is the bracket that closes.
-/
def rangeSelector (text : List Char) : Except Stop Query := do
  let text := trim text
  if text.getLast? = some ']' then
    let some opening := findLast? '[' text | lift (fault .bracketNotOpened text)
    let inner ← slice text (opening + 1) (size text - 1)
    let range ← duration inner
    if range.nanos = 0 then lift (fault .rangeNotPositive inner)
    let query ← selector (← slice text 0 opening)
    return { query with range := some range }
  else if (find? '[' text).isSome then lift (fault .bracketNotClosed text)
  else selector text

/-- Reads the labels of a grouping, which stand in parentheses behind its keyword. -/
def groupingLabels (tail : List Char) : Except Stop (List String) := do
  if tail.head? ≠ some '(' then lift (fault .groupingNotOpened tail)
  let some close := closing? tail 0 | lift (fault .parenthesisNotClosed tail)
  let behind ← slice tail (close + 1) (size tail)
  if !(trim behind).isEmpty then lift (fault .inputAfterGrouping behind)
  lift (labelNames (← slice tail 1 close))

/-- Reads the grouping of an aggregation. -/
def grouping (text : List Char) : Except Stop Grouping :=
  if text.isEmpty then .ok .none
  else
    match behindKeyword? "by" text with
    | some tail => (groupingLabels (trimStart tail)).map .on
    | none =>
      match behindKeyword? "without" text with
      | some tail => (groupingLabels (trimStart tail)).map .without
      | none => lift (fault .groupingExpected text)

/-- A slice that does not begin at the beginning is shorter than the text. -/
theorem length_lt_of_slice {text piece : List Char} {start stop : Nat} (hstart : 0 < start)
    (h : slice text start stop = .ok piece) : piece.length < text.length := by
  obtain ⟨a, b, rfl, rfl, -⟩ := slice_eq_ok_iff.1 h
  cases a with
  | nil => cases hstart
  | cons c cs =>
    simp only [List.length_append, List.length_cons]
    omega

/-- Takes a call apart by its parentheses. The slice of the argument is shorter than the call,
which lets the reader recur. -/
def call (text : List Char) (opening : Nat) :
    Except Stop { call : Call // call.inner.length < text.length } := do
  let name := trim (← slice text 0 opening)
  if name.isEmpty then lift (fault .functionNameMissing text)
  if !isLabelName name then lift (fault .functionNameInvalid name)
  let some close := closing? text opening | lift (fault .parenthesisNotClosed text)
  match h : slice text (opening + 1) close with
  | .error stop => .error stop
  | .ok inner =>
    let rest := trim (← slice text (close + 1) (size text))
    return ⟨⟨name, inner, rest⟩, length_lt_of_slice (Nat.succ_pos opening) h⟩

/-- Reads a call of a function: nothing behind it, and no call inside. -/
def plain (call : Call) : Except Stop Query := do
  if !call.rest.isEmpty then lift (fault .inputAfterCall call.rest)
  if (find? '(' call.inner).isSome then lift (fault .callNested call.inner)
  let query ← if (trim call.inner).isEmpty then pure {} else rangeSelector call.inner
  return { query with function := some (String.ofList call.name) }

/-- The offset of the parenthesis that opens a call: the first one, if no brace stands before it.
-/
def callOpening? (text : List Char) : Except Stop (Option Nat) :=
  match find? '(' text with
  | none => return none
  | some opening => do
    if (find? '{' (← slice text 0 opening)).isNone then return some opening else return none

/-- Reads an expression, calls inside of aggregations included. -/
def expression (catalog : Catalog) (text : List Char) : Except Stop Query :=
  match callOpening? (trim text) with
  | .error stop => .error stop
  | .ok none => rangeSelector (trim text)
  | .ok (some opening) =>
    match call (trim text) opening with
    | .error stop => .error stop
    | .ok ⟨call, _⟩ =>
      if catalog.isAggregation (String.ofList call.name) then
        if (trim call.inner).isEmpty then lift (fault .aggregationWithoutArgument (trim text))
        else do
          let query ← expression catalog call.inner
          if query.aggregation.isSome then lift (fault .aggregationNested call.inner)
          let grouping ← grouping call.rest
          return { query with aggregation := some ⟨String.ofList call.name, grouping⟩ }
      else plain call
termination_by text.length
decreasing_by exact Nat.lt_of_lt_of_le (by assumption) (length_trim_le text)

/-- Reads a query. -/
def parse (text : String) : Except Stop Query :=
  if (trim text.toList).isEmpty then lift (fault .emptyQuery text.toList)
  else expression Catalog.builtin (trim text.toList)

/-! ## It is the same reader

The two readers are compared part by part. Where both take the same parts of a text in the same
order, the steps of one are the lifted steps of the other. -/

section Lift

variable {α β : Type}

/-- Steps of the reader that take no slices may be lifted one by one. -/
theorem lift_bind (x : Except Error α) (f : α → Except Error β) :
    lift (x >>= f) = lift x >>= fun a => lift (f a) := by
  cases x <;> rfl

/-- Lifting a step commutes with what is made of its result. -/
theorem lift_map (f : α → β) (x : Except Error α) : lift (x.map f) = (lift x).map f := by
  cases x <;> rfl

/-- Lifting commutes with a choice. -/
theorem lift_ite {c : Prop} [Decidable c] (x y : Except Error α) :
    lift (if c then x else y) = if c then lift x else lift y := by
  split <;> rfl

theorem lift_pure (a : α) : lift (pure a : Except Error α) = pure a := rfl

/-- The result of a step is that of the lifted one. -/
theorem lift_ok (a : α) : lift (.ok a : Except Error α) = .ok a := rfl

/-- Behind a fault nothing is read, lifted or not. -/
theorem lift_fault_bind (cause : QueryFault) (fragment : List Char) (f : α → Except Stop β) :
    lift (fault cause fragment) >>= f = lift (fault cause fragment) := rfl

/-- A loop is lifted if its step is, by induction on what it runs over. -/
theorem lift_foldlM {f : β → α → Except Error β} {g : β → α → Except Stop β}
    (h : ∀ b a, g b a = lift (f b a)) (init : β) (as : List α) :
    as.foldlM g init = lift (as.foldlM f init) := by
  induction as generalizing init with
  | nil => rfl
  | cons a as ih =>
    rw [List.foldlM_cons, List.foldlM_cons, h, lift_bind]
    exact bind_congr ih

theorem ok_bind (a : α) (f : α → Except Stop β) : (.ok a : Except Stop α) >>= f = f a := rfl

end Lift

/-! ### Durations -/

/-- The last character of a text ends it. -/
theorem size_sub {text : List Char} {c : Char} (h : text.getLast? = some c) :
    size text - c.utf8Size = offset text (text.length - 1) := by
  obtain ⟨init, rfl⟩ := List.getLast?_eq_some_iff.1 h
  have hone : size [c] = c.utf8Size := rfl
  rw [size_append, hone, offset, List.length_append, List.length_singleton, Nat.add_sub_cancel,
    Nat.add_sub_cancel, List.take_left]

/-- The slice before the last character is the text without it. -/
theorem plainDuration?_eq (text : List Char) :
    plainDuration? text = .ok (Query.plainDuration? text) := by
  rw [plainDuration?, Query.plainDuration?]
  cases hlast : text.getLast? with
  | none => rfl
  | some unit =>
    simp only [size_sub hlast, slice_to, ← List.dropLast_eq_take, ok_bind]
    cases plainUnit? unit with
    | none => rfl
    | some seconds =>
      simp only
      split
      · rfl
      · cases Text.Integer.unsigned Text.Integer.maxUnsigned64 text.dropLast with
        | error _ => rfl
        | ok n =>
          simp only
          split <;> rfl

/-- A length of time is read alike by offsets. -/
theorem duration_eq (text : List Char) : duration text = lift (Query.duration text) := by
  rw [duration, Query.duration]
  simp only [plainDuration?_eq, ok_bind, lift_ite]
  split
  · rfl
  · cases Query.plainDuration? (trim text) with
    | some seconds => cases seconds <;> rfl
    | none =>
      cases Duration.read (trim text) with
      | ok d => rfl
      | error f => cases f <;> rfl

/-! ### Selectors -/

/-- A value is read alike by offsets, because its quotes have one byte each. -/
theorem unquote_eq (raw : List Char) : unquote raw = lift (Query.unquote raw) := by
  cases raw with
  | nil => rfl
  | cons opening rest =>
    rw [unquote, Query.unquote]
    split
    next hquotes =>
      rw [Bool.and_eq_true, beq_iff_eq] at hquotes
      obtain ⟨hquote, hlast⟩ := hquotes
      obtain ⟨init, rfl⟩ := List.getLast?_eq_some_iff.1 hlast
      -- either quote has one byte, so the slice leaves out the first and the last character
      have hone : size [opening] = 1 := by
        rw [isQuote, Bool.or_eq_true, beq_iff_eq, beq_iff_eq] at hquote
        rcases hquote with rfl | rfl <;> rfl
      have hstop : size (opening :: (init ++ [opening])) - 1 = size ([opening] ++ init) := by
        rw [← List.cons_append, size_append, hone, Nat.add_sub_cancel, List.singleton_append]
      have hslice : slice (opening :: (init ++ [opening])) 1
          (size (opening :: (init ++ [opening])) - 1) = .ok init :=
        slice_eq_ok_iff.2 ⟨[opening], [opening], rfl, hone.symm, hstop⟩
      rw [hslice, List.dropLast_concat]
      rfl
    next => rfl

/-- A constraint is read alike by offsets: the sign has one byte, so one behind its offset is the
offset of what follows. -/
theorem constraint_eq (labels : Labels) (pair : List Char) :
    constraint labels pair = lift (Query.constraint labels pair) := by
  rw [constraint, Query.constraint]
  cases hfind : Quoted.find? '=' (trim pair) with
  | none => simp only [find?_eq_map, hfind, Option.map_none, lift_ite, lift_pure]
  | some eq =>
    simp only [find?_eq_map, hfind, Option.map_some, lift_ite, lift_pure, lift_bind,
      lift_fault_bind, fault_bind, slice_to, offset_add_one (getElem?_of_find? hfind) rfl,
      slice_from, ok_bind, unquote_eq]

/-- Constraints are read alike by offsets. -/
theorem constraints_eq (body : List Char) :
    constraints body = lift (Query.constraints body) := by
  rw [constraints, Query.constraints, split_eq_ok, ok_bind, lift_foldlM constraint_eq]

/-- There is something behind a position that is not at the end. -/
theorem offset_ne_size_iff {text : List Char} {i : Nat} :
    offset text i ≠ size text ↔ (text.drop i).isEmpty = false := by
  have hsize : size text = offset text i + size (text.drop i) := by
    rw [offset, ← size_append, List.take_append_drop]
  rw [List.isEmpty_eq_false_iff]
  refine not_congr ⟨fun heq => eq_nil_of_size_eq_zero (by omega), fun hnil => ?_⟩
  rw [hsize, hnil]
  rfl

/-- A selector is taken apart alike by offsets. -/
theorem selectorParts_eq (text : List Char) :
    selectorParts text = lift (Query.selectorParts text) := by
  rw [selectorParts, Query.selectorParts]
  cases hopen : Quoted.find? '{' text with
  | none =>
    simp only [find?_eq_map, hopen, Option.map_none, Option.isSome_map, lift_ite]
    rfl
  | some opening =>
    have hbehind := offset_add_one (getElem?_of_find? hopen) rfl
    simp only [find?_eq_map, hopen, Option.map_some, hbehind, slice_from, ok_bind]
    cases hclose : Quoted.find? '}' (text.drop (opening + 1)) with
    | none => rfl
    | some close =>
      -- the brace that closes was found in what follows the one that opens
      have hstop : offset (text.drop (opening + 1)) close + offset text opening + 1 =
          offset text (opening + 1 + close) := by
        rw [offset_add text (opening + 1)]
        omega
      have hclosing : text[opening + 1 + close]? = some '}' := by
        rw [← List.getElem?_drop]
        exact getElem?_of_find? hclose
      have hbody : (text.take (opening + 1 + close)).drop (opening + 1) =
          (text.drop (opening + 1)).take close := by
        rw [List.drop_take, Nat.add_sub_cancel_left]
      have hrest : (text.drop (opening + 1)).drop (close + 1) =
          text.drop (opening + 1 + close + 1) := by
        rw [List.drop_drop, Nat.add_assoc (opening + 1)]
      simp only [Option.map_some, hstop, offset_add_one hclosing rfl, offset_ne_size_iff,
        slice_from, slice_to, slice_offset text (Nat.le_add_right (opening + 1) close), ok_bind,
        lift_ite, hbody, hrest, Bool.not_eq_true']
      rfl

/-- A selector is read alike by offsets. -/
theorem selector_eq (text : List Char) : selector text = lift (Query.selector text) := by
  rw [selector, Query.selector]
  simp only [selectorParts_eq, lift_bind]
  refine bind_congr fun parts => ?_
  obtain ⟨name, body⟩ := parts
  -- without braces there are no constraints to be read
  cases body with
  | none => simp only [lift_ite, lift_pure, pure_bind, lift_fault_bind, fault_bind]
  | some body =>
    simp only [constraints_eq, lift_bind, lift_ite, lift_pure, lift_fault_bind, fault_bind]

/-- A range selector is read alike by offsets. -/
theorem rangeSelector_eq (text : List Char) :
    rangeSelector text = lift (Query.rangeSelector text) := by
  rw [rangeSelector, Query.rangeSelector]
  simp only [lift_ite]
  split
  next hlast =>
    cases hopen : Quoted.findLast? '[' (trim text) with
    | none => simp only [findLast?_eq_map, hopen, Option.map_none]
    | some opening =>
      have hopening := getElem?_of_findLast? hopen
      -- the bracket that opens is not the last character, which closes
      have hle : opening + 1 ≤ (trim text).length - 1 := by
        have hlt := (List.getElem?_eq_some_iff.1 hopening).1
        rcases Nat.lt_or_ge opening ((trim text).length - 1) with h | h
        · exact h
        · obtain rfl : opening = (trim text).length - 1 := by omega
          rw [← List.getLast?_eq_getElem?, hlast] at hopening
          cases hopening
      have hsize : size (trim text) - 1 = offset (trim text) ((trim text).length - 1) :=
        size_sub hlast
      have hinner : ((trim text).take ((trim text).length - 1)).drop (opening + 1) =
          ((trim text).drop (opening + 1)).dropLast := by
        rw [List.drop_take, List.dropLast_eq_take, List.length_drop, Nat.sub_right_comm]
      simp only [findLast?_eq_map, hopen, Option.map_some, offset_add_one hopening rfl, hsize,
        slice_offset _ hle, hinner, slice_to, ok_bind, duration_eq, selector_eq, lift_bind,
        lift_ite, lift_pure, lift_fault_bind, fault_bind]
  next => simp only [find?_eq_map, Option.isSome_map, selector_eq]

/-! ### Calls -/

/-- The labels of a grouping are read alike by offsets. -/
theorem groupingLabels_eq (tail : List Char) :
    groupingLabels tail = lift (Query.groupingLabels tail) := by
  rw [groupingLabels, Query.groupingLabels]
  simp only [lift_ite, fault_bind, lift_fault_bind]
  rcases tail with _ | ⟨c, behind⟩
  · rfl
  split
  · rfl
  next hopen =>
    obtain rfl : c = '(' := by simpa using hopen
    -- the grouping begins with its parenthesis, so both count from the beginning
    have hparenthesis := closing?_eq_map ('(' :: behind) 0
    rw [offset_zero] at hparenthesis
    cases hclose : Quoted.closing? ('(' :: behind) 0 with
    | none =>
      rw [hparenthesis, hclose]
      rfl
    | some close =>
      obtain ⟨hlt, hclosing⟩ := getElem?_of_closing? (a := []) rfl hclose
      have hlabels : slice ('(' :: behind) 1 (offset ('(' :: behind) close) =
          .ok ((('(' :: behind).take close).drop 1) :=
        slice_offset ('(' :: behind) (Nat.succ_le_of_lt hlt)
      have hbehind : offset ('(' :: behind) close + 1 = offset ('(' :: behind) (close + 1) :=
        offset_add_one hclosing rfl
      simp only [hparenthesis, hclose, Option.map_some, hbehind, slice_from, hlabels, ok_bind,
        lift_ite]

/-- A grouping is read alike by offsets. -/
theorem grouping_eq (text : List Char) : grouping text = lift (Query.grouping text) := by
  rw [grouping, Query.grouping_eq]
  simp only [groupingLabels_eq, ← lift_map, lift_ite]
  refine ite_congr rfl (fun _ => rfl) fun _ => ?_
  cases behindKeyword? "by" text with
  | some tail => rfl
  | none => cases behindKeyword? "without" text <;> rfl

/-- A call is taken apart alike by offsets, if the parenthesis is the first one. -/
theorem call_eq {text : List Char} {opening : Nat} (hopen : Quoted.find? '(' text = some opening)
    (h : opening < text.length) :
    call text (offset text opening) = lift (Call.ofText text opening h) := by
  obtain ⟨a, behind, rfl, ha, rfl⟩ := Quoted.exists_append_of_find? hopen
  rw [call, Call.ofText]
  simp only [slice_to, ok_bind, lift_ite, fault_bind, lift_fault_bind, closing?_eq_map]
  split
  · rfl
  split
  · rfl
  cases hclose : Quoted.closing? (a ++ '(' :: behind) a.length with
  | none => rfl
  | some close =>
    obtain ⟨hlt, hclosing⟩ := getElem?_of_closing? ha.1 hclose
    -- this slice is there because the parenthesis that closes is behind the one that opens
    have hinner := slice_offset (a ++ '(' :: behind) (Nat.succ_le_of_lt hlt)
    rw [← offset_add_one (getElem?_of_find? hopen) rfl] at hinner
    simp only [Option.map_some]
    split
    next stop hstop => cases hinner.symm.trans hstop
    next inner hok =>
      cases hinner.symm.trans hok
      simp only [offset_add_one hclosing rfl, slice_from, ok_bind]
      rfl

/-- A call of a function is read alike by offsets. -/
theorem plain_eq (c : Call) : plain c = lift c.plain := by
  rw [plain, Call.plain]
  simp only [find?_eq_map, Option.isSome_map, rangeSelector_eq, lift_ite, lift_bind, fault_bind,
    lift_fault_bind, lift_pure]

/-- A call is found alike, at the offset of its position. -/
theorem callOpening?_eq (text : List Char) :
    callOpening? text = .ok ((Query.callOpening? text).map (offset text)) := by
  rw [callOpening?, Query.callOpening?]
  cases hopen : Quoted.find? '(' text with
  | none => simp only [find?_eq_map, hopen, Option.map_none]; rfl
  | some opening =>
    simp only [find?_eq_map, hopen, Option.map_some, slice_to, ok_bind, Option.isNone_map]
    split <;> rfl

/-- A call opens at the first parenthesis. -/
theorem find?_of_callOpening? {text : List Char} {opening : Nat}
    (h : Query.callOpening? text = some opening) : Quoted.find? '(' text = some opening := by
  rw [Query.callOpening?] at h
  cases hopen : Quoted.find? '(' text with
  | none =>
    rw [hopen] at h
    cases h
  | some i =>
    simp only [hopen] at h
    split at h
    · exact h
    · cases h

/-! ### Queries -/

/-- An expression is read alike by offsets. -/
theorem expression_eq (catalog : Catalog) (text : List Char) :
    expression catalog text = lift (Query.expression catalog text) := by
  -- by the recursion of the reader by positions; the other one recurs along the same arguments,
  -- as each case shows
  fun_induction Query.expression catalog text with
  | case1 text hnone => rw [expression, callOpening?_eq, hnone, Option.map_none, rangeSelector_eq]
  | case2 text opening hopening e hcall =>
    rw [expression, callOpening?_eq, hopening, Option.map_some]
    simp only [call_eq (find?_of_callOpening? hopening) (callOpening?_lt hopening), hcall]
    rfl
  | case3 text opening hopening call hlt hcall hname hempty =>
    rw [expression, callOpening?_eq, hopening, Option.map_some]
    simp only [call_eq (find?_of_callOpening? hopening) (callOpening?_lt hopening), hcall, lift_ok]
    rw [if_pos hname, if_pos hempty]
  | case4 text opening hopening call hlt hcall hname hempty ih =>
    rw [expression, callOpening?_eq, hopening, Option.map_some]
    simp only [call_eq (find?_of_callOpening? hopening) (callOpening?_lt hopening), hcall, lift_ok]
    rw [if_pos hname, if_neg hempty]
    simp only [ih, grouping_eq, lift_bind, lift_ite, lift_pure, lift_fault_bind, fault_bind]
  | case5 text opening hopening call hlt hcall hname =>
    rw [expression, callOpening?_eq, hopening, Option.map_some]
    simp only [call_eq (find?_of_callOpening? hopening) (callOpening?_lt hopening), hcall, lift_ok]
    rw [if_neg hname, plain_eq]

/-- **The reader by offsets is the reader by positions, and no slice stops it.** -/
theorem parse_eq (text : String) : parse text = lift (Query.parse text) := by
  rw [parse, Query.parse, lift_ite, expression_eq]

end Telemetry.Query.Offsets
