import Telemetry.Proofs.Fallible
import Telemetry.Proofs.Query.Scanning
import Telemetry.Proofs.Text.Spacing
import Telemetry.Query.Parser

/-!
Where the errors of the reader of queries point to.

Every part of the reader is given a piece of the text and refuses it with a piece of that, so what
an error names is a piece of the text as well (`parse_failsIn`). A step that reads no duration has
no other errors (`FaultsIn`); one that does may also have no result, when the seconds are exhausted
(`FailsIn`).
-/

set_option autoImplicit false

namespace Telemetry

/-- Whether an error is a fault of a query that names a piece of a text. -/
def Error.PointsInto (text : List Char) : Error → Prop
  | .query _ fragment => fragment.toList <:+: text
  | _ => False

theorem Error.PointsInto.mono {text piece : List Char} (h : piece <:+: text) {e : Error}
    (he : e.PointsInto piece) : e.PointsInto text := by
  cases e with
  | query fault fragment => exact List.IsInfix.trans he h
  | _ => cases he

namespace Query

open Fallible
open Error (PointsInto)
open Text (trim trimStart)
open Time (Duration)

/-! ## Faults as results -/

/-- A fault fails only as its error does. -/
@[simp] theorem onlyFails_fault {α : Type} {p : Error → Prop} (cause : QueryFault)
    (fragment : List Char) :
    OnlyFails p (fault cause fragment : Except Error α) ↔
      p (.query cause (String.ofList fragment)) :=
  onlyFails_error _

@[simp] theorem fault_eq_error_iff {α : Type} {cause : QueryFault} {fragment : List Char}
    {e : Error} : (fault cause fragment : Except Error α) = .error e ↔
      .query cause (String.ofList fragment) = e :=
  ⟨Except.error.inj, congrArg _⟩

@[simp] theorem fault_bind {α β : Type} (cause : QueryFault) (fragment : List Char)
    (g : α → Except Error β) : fault cause fragment >>= g = fault cause fragment := rfl

/-- A step behind a check has a result if the check passes and the step has it. -/
theorem ite_fault_eq_ok_iff {α : Type} {c : Prop} [Decidable c] {cause : QueryFault}
    {fragment : List Char} {x : Except Error α} {a : α} :
    (if c then fault cause fragment else x) = .ok a ↔ ¬ c ∧ x = .ok a := by
  by_cases hc : c
  · rw [if_pos hc]
    exact ⟨nofun, fun h => absurd hc h.1⟩
  · rw [if_neg hc]
    exact ⟨fun h => ⟨hc, h⟩, fun h => h.2⟩

/-! ## Errors point into the text

A fault carries a piece of the text that was read. Where a part of the text is read by another
function, its pieces are pieces of the whole; so the statements are monotone in the text. -/

section

variable {α : Type} {text piece : List Char} {x : Except Error α}

/-- Whether the errors of a step point into a text. -/
abbrev FaultsIn (text : List Char) (x : Except Error α) : Prop := OnlyFails (PointsInto text) x

/-- Whether the errors of a step point into a text, or say that there is no result. -/
abbrev FailsIn (text : List Char) (x : Except Error α) : Prop :=
  OnlyFails (fun e => e.PointsInto text ∨ e = .beyondRange) x

/-- A fault points into a text if the piece that it names is one of it. -/
theorem faultsIn_fault {cause : QueryFault} :
    FaultsIn text (fault cause piece : Except Error α) ↔ piece <:+: text := by
  rw [FaultsIn, onlyFails_fault, PointsInto, String.toList_ofList]

theorem failsIn_fault {cause : QueryFault} :
    FailsIn text (fault cause piece : Except Error α) ↔ piece <:+: text := by
  rw [FailsIn, onlyFails_fault, PointsInto, String.toList_ofList]
  exact or_iff_left nofun

theorem FaultsIn.mono (hx : FaultsIn piece x) (h : piece <:+: text) : FaultsIn text x :=
  OnlyFails.mono hx fun _ => PointsInto.mono h

theorem FaultsIn.failsIn (hx : FaultsIn piece x) (h : piece <:+: text) : FailsIn text x :=
  OnlyFails.mono hx fun _ he => .inl (he.mono h)

theorem FailsIn.mono (hx : FailsIn piece x) (h : piece <:+: text) : FailsIn text x :=
  OnlyFails.mono hx fun _ => .imp_left (PointsInto.mono h)

end

theorem infix_take (text : List Char) (i : Nat) : text.take i <:+: text :=
  (List.take_prefix i text).isInfix

theorem infix_drop (text : List Char) (i : Nat) : text.drop i <:+: text :=
  (List.drop_suffix i text).isInfix

/-- A piece of a list of pieces is one of the text that they make with a separator between them.
-/
theorem infix_of_mem_intercalate (separator : List Char) {pieces : List (List Char)}
    {piece : List Char} (h : piece ∈ pieces) : piece <:+: separator.intercalate pieces := by
  induction pieces with
  | nil => cases h
  | cons p ps ih =>
    rcases ps with _ | ⟨p', ps⟩
    · obtain rfl := List.mem_singleton.1 h
      -- a separator stands behind a piece only if another one follows
      simp only [List.intercalate_singleton, List.infix_rfl]
    · rw [List.intercalate_cons_cons, List.append_assoc]
      rcases List.mem_cons.1 h with rfl | h
      · exact (List.prefix_append _ _).isInfix
      · have hrest := (ih h).trans (List.suffix_append separator _).isInfix
        exact hrest.trans (List.suffix_append p _).isInfix

/-! ### Selectors -/

/-- A length of time is refused with its own text; it is the only step that may have no result. -/
theorem duration_failsIn (text : List Char) : FailsIn text (duration text) := by
  have hfault (cause : QueryFault) : FailsIn text (fault cause text : Except Error Duration) :=
    failsIn_fault.2 List.infix_rfl
  unfold duration
  dsimp only
  split
  · exact hfault _
  · split
    · exact onlyFails_ok _
    · exact hfault _
    · split
      · exact onlyFails_ok _
      · exact (onlyFails_error _).2 (.inr rfl)
      · exact hfault _

/-- A value in quotes is refused as a whole, wherever in it the fault is. -/
theorem unquoteInner_faultsIn (quote : Char) (whole raw : List Char) :
    FaultsIn whole (unquoteInner quote whole raw) := by
  -- on the value behind its opening quote, with its cases: an escape, the quote again, another
  -- character
  fun_induction unquoteInner quote whole raw with
  | case1 => exact onlyFails_ok _
  | case2 => exact faultsIn_fault.2 List.infix_rfl
  | case3 c rest ih => exact onlyFails_map.2 ih
  | case4 => exact faultsIn_fault.2 List.infix_rfl
  | case5 c rest _ _ ih => exact onlyFails_map.2 ih

theorem unquote_faultsIn (raw : List Char) : FaultsIn raw (unquote raw) := by
  have hbare : FaultsIn raw (unquote.bare raw) := by
    rw [unquote.bare, FaultsIn, onlyFails_ite]
    exact ⟨fun _ => faultsIn_fault.2 List.infix_rfl, fun _ => onlyFails_ok _⟩
  unfold unquote
  split
  · split
    · exact unquoteInner_faultsIn _ _ _
    · exact hbare
  · exact hbare

/-- A constraint is refused with itself, its label or its value. -/
theorem constraint_faultsIn (labels : Labels) (pair : List Char) :
    FaultsIn pair (constraint labels pair) := by
  have htrim := Text.trim_infix pair
  unfold constraint
  dsimp only
  cases Quoted.find? '=' (trim pair) with
  | none =>
    simp only [FaultsIn, onlyFails_ite, onlyFails_pure]
    exact ⟨fun _ => trivial, fun _ => faultsIn_fault.2 htrim⟩
  | some eq =>
    -- the label and the value are what stands before and behind the sign, without blanks
    have hkey : trim ((trim pair).take eq) <:+: pair :=
      (Text.trim_infix _).trans ((infix_take _ _).trans htrim)
    have hraw : trim ((trim pair).drop (eq + 1)) <:+: pair :=
      (Text.trim_infix _).trans ((infix_drop _ _).trans htrim)
    have hunquote := (unquote_faultsIn _).mono hraw
    simp only [fault_bind, onlyFails_ite, onlyFails_bind, onlyFails_pure, faultsIn_fault, htrim,
      hkey, hunquote, implies_true, and_self]

/-- Constraints are refused with one of them. -/
theorem constraints_faultsIn (body : List Char) : FaultsIn body (constraints body) := by
  rw [constraints]
  refine OnlyFails.foldlM (fun labels piece hpiece => ?_) _
  have hinfix := infix_of_mem_intercalate [','] hpiece
  rw [Quoted.intercalate_split] at hinfix
  exact (constraint_faultsIn labels piece).mono hinfix

/-- A selector that cannot be taken apart is refused with itself, or with what stands behind it.
-/
theorem selectorParts_faultsIn (text : List Char) : FaultsIn text (selectorParts text) := by
  unfold selectorParts
  dsimp only
  split
  · rw [FaultsIn, onlyFails_ite]
    exact ⟨fun _ => faultsIn_fault.2 List.infix_rfl, fun _ => onlyFails_ok _⟩
  next opening _ =>
    split
    · exact faultsIn_fault.2 List.infix_rfl
    next close _ =>
      rw [FaultsIn, onlyFails_ite]
      have hrest := (infix_drop (text.drop (opening + 1)) (close + 1)).trans (infix_drop _ _)
      exact ⟨fun _ => faultsIn_fault.2 hrest, fun _ => onlyFails_ok _⟩

/-- The parts of a selector are pieces of it. -/
theorem infix_of_selectorParts {text name : List Char} {body : Option (List Char)}
    (h : selectorParts text = .ok (name, body)) :
    name <:+: text ∧ ∀ b ∈ body, b <:+: text := by
  unfold selectorParts at h
  dsimp only at h
  split at h
  · obtain ⟨-, h⟩ := ite_fault_eq_ok_iff.1 h
    cases h
    exact ⟨List.infix_rfl, nofun⟩
  · split at h
    · cases h
    · obtain ⟨-, h⟩ := ite_fault_eq_ok_iff.1 h
      cases h
      refine ⟨(Text.trim_infix _).trans (infix_take _ _), fun b hb => ?_⟩
      obtain rfl := Option.some.inj hb
      exact (infix_take _ _).trans (infix_drop _ _)

/-- A selector holds no duration, so its errors are faults of the query. -/
theorem selector_faultsIn (text : List Char) : FaultsIn text (selector text) := by
  have htrim := Text.trim_infix text
  unfold selector
  simp only [FaultsIn, onlyFails_bind]
  refine ⟨(selectorParts_faultsIn _).mono htrim, ?_⟩
  rintro ⟨name, body⟩ hparts
  -- the name and the body are pieces of the selector, and so of the text
  obtain ⟨hname, hbody⟩ := infix_of_selectorParts hparts
  have hname := hname.trans htrim
  cases body with
  | none =>
    simp only [pure_bind, fault_bind, onlyFails_ite, onlyFails_pure, faultsIn_fault, htrim, hname,
      implies_true, and_self]
  | some body =>
    have hconstraints := (constraints_faultsIn body).mono ((hbody body rfl).trans htrim)
    simp only [fault_bind, onlyFails_bind, onlyFails_ite, onlyFails_pure, faultsIn_fault, htrim,
      hname, hconstraints, implies_true, and_self]

/-- A range selector is refused with its range, or as its selector is. -/
theorem rangeSelector_failsIn (text : List Char) : FailsIn text (rangeSelector text) := by
  have htrim := Text.trim_infix text
  unfold rangeSelector
  dsimp only
  split
  · cases Quoted.findLast? '[' (trim text) with
    | none => exact failsIn_fault.2 htrim
    | some opening =>
      have hinner : ((trim text).drop (opening + 1)).dropLast <:+: text :=
        ((List.dropLast_prefix _).isInfix.trans (infix_drop _ _)).trans htrim
      have hselector := (selector_faultsIn _).failsIn ((infix_take (trim text) opening).trans htrim)
      have hduration := (duration_failsIn _).mono hinner
      simp only [FailsIn, fault_bind, onlyFails_bind, onlyFails_ite, onlyFails_pure, failsIn_fault,
        hinner, hselector, hduration, implies_true, and_self]
  · rw [FailsIn, onlyFails_ite]
    exact ⟨fun _ => failsIn_fault.2 htrim, fun _ => (selector_faultsIn _).failsIn htrim⟩

/-! ### Calls -/

/-- Names of labels are refused with one of them. -/
theorem labelNames_faultsIn (text : List Char) : FaultsIn text (labelNames text) := by
  refine OnlyFails.mapM fun name hname => ?_
  obtain ⟨piece, hpiece, rfl⟩ := List.mem_map.1 (List.mem_filter.1 hname).1
  have hinfix := infix_of_mem_intercalate [','] hpiece
  rw [List.intercalate_splitOn] at hinfix
  rw [onlyFails_ite]
  exact ⟨fun _ => onlyFails_ok _, fun _ => faultsIn_fault.2 ((Text.trim_infix piece).trans hinfix)⟩

/-- What follows a keyword is a piece of the text. -/
theorem infix_of_behindKeyword? {keyword : String} {text tail : List Char}
    (h : behindKeyword? keyword text = some tail) : tail <:+: text := by
  rw [behindKeyword?] at h
  split at h
  · cases hdrop : text.drop keyword.length with
    | nil =>
      rw [hdrop] at h
      cases h
    | cons c rest =>
      simp only [hdrop] at h
      split at h
      · obtain rfl := Option.some.inj h
        rw [← hdrop]
        exact infix_drop _ _
      · cases h
  · cases h

/-- The labels of a grouping, which follow its keyword. -/
def groupingLabels (tail : List Char) : Except Error (List String) := do
  if tail.head? ≠ some '(' then fault .groupingNotOpened tail
  let some close := Quoted.closing? tail 0 | fault .parenthesisNotClosed tail
  let behind := tail.drop (close + 1)
  if !(trim behind).isEmpty then fault .inputAfterGrouping behind
  labelNames ((tail.take close).drop 1)

/-- What is made of the labels of a grouping may be made in the step that reads them. The two
keywords do this in the reader, each for itself. -/
theorem groupingLabels_map (tail : List Char) (make : List String → Grouping) :
    (groupingLabels tail).map make = do
      if tail.head? ≠ some '(' then fault .groupingNotOpened tail
      let some close := Quoted.closing? tail 0 | fault .parenthesisNotClosed tail
      let behind := tail.drop (close + 1)
      if !(trim behind).isEmpty then fault .inputAfterGrouping behind
      return make (← labelNames ((tail.take close).drop 1)) := by
  rw [groupingLabels]
  simp only [fault_bind]
  split
  · rfl
  · cases Quoted.closing? tail 0 with
    | none => rfl
    | some close =>
      simp only
      split
      · rfl
      · cases labelNames ((tail.take close).drop 1) <;> rfl

/-- Behind both keywords the labels are read alike. -/
theorem grouping_eq (text : List Char) : grouping text =
    if text.isEmpty then .ok .none
    else
      match behindKeyword? "by" text with
      | some tail => (groupingLabels (trimStart tail)).map .on
      | none =>
        match behindKeyword? "without" text with
        | some tail => (groupingLabels (trimStart tail)).map .without
        | none => fault .groupingExpected text := by
  simp only [grouping, groupingLabels_map]
  cases behindKeyword? "by" text with
  | some tail => rfl
  | none => cases behindKeyword? "without" text <;> rfl

/-- The labels of a grouping are refused with a piece of what follows the keyword. -/
theorem groupingLabels_faultsIn (tail : List Char) : FaultsIn tail (groupingLabels tail) := by
  have hnames (close : Nat) : FaultsIn tail (labelNames ((tail.take close).drop 1)) :=
    (labelNames_faultsIn _).mono ((infix_drop _ _).trans (infix_take _ _))
  unfold groupingLabels
  cases Quoted.closing? tail 0 <;>
    simp only [fault_bind, onlyFails_ite, faultsIn_fault, List.infix_rfl, infix_drop, hnames,
      implies_true, and_self]

/-- A grouping is refused with a piece of itself. -/
theorem grouping_faultsIn (text : List Char) : FaultsIn text (grouping text) := by
  -- what follows a keyword is a piece of the text, whichever keyword it is
  have hlabels {keyword : String} {tail : List Char} (h : behindKeyword? keyword text = some tail) :
      FaultsIn text (groupingLabels (trimStart tail)) :=
    (groupingLabels_faultsIn _).mono
      ((List.dropWhile_suffix _).isInfix.trans (infix_of_behindKeyword? h))
  rw [grouping_eq, FaultsIn, onlyFails_ite]
  refine ⟨fun _ => onlyFails_ok _, fun _ => ?_⟩
  split
  next tail hby => exact onlyFails_map.2 (hlabels hby)
  next =>
    split
    next tail hwithout => exact onlyFails_map.2 (hlabels hwithout)
    next => exact faultsIn_fault.2 List.infix_rfl

/-- A call that is taken apart has a name. Its parts are what stands around its parentheses. -/
theorem parts_of_ofText {text : List Char} {opening : Nat} {hlt : opening < text.length}
    {call : { call : Call // call.inner.length < text.length }}
    (h : Call.ofText text opening hlt = .ok call) :
    isLabelName call.1.name = true ∧ ∃ close, Quoted.closing? text opening = some close ∧
      call.1 = ⟨trim (text.take opening), (text.take close).drop (opening + 1),
        trim (text.drop (close + 1))⟩ := by
  simp only [Call.ofText, fault_bind, ite_fault_eq_ok_iff, Bool.not_eq_true', Bool.not_eq_false]
    at h
  obtain ⟨-, hname, h⟩ := h
  cases hclose : Quoted.closing? text opening with
  | none =>
    rw [hclose] at h
    cases h
  | some close =>
    rw [hclose] at h
    cases h
    exact ⟨hname, close, rfl, rfl⟩

/-- The parts of a call are pieces of it. -/
theorem infix_of_ofText {text : List Char} {opening : Nat} {hlt : opening < text.length}
    {call : { call : Call // call.inner.length < text.length }}
    (h : Call.ofText text opening hlt = .ok call) :
    call.1.inner <:+: text ∧ call.1.rest <:+: text := by
  obtain ⟨-, close, -, hcall⟩ := parts_of_ofText h
  rw [hcall]
  exact ⟨(infix_drop _ _).trans (infix_take _ _), (Text.trim_infix _).trans (infix_drop _ _)⟩

/-- A call that cannot be taken apart is refused with its name, or as a whole. -/
theorem Call.ofText_faultsIn (text : List Char) (opening : Nat) (h : opening < text.length) :
    FaultsIn text (Call.ofText text opening h) := by
  have hname := (Text.trim_infix (text.take opening)).trans (infix_take _ _)
  unfold Call.ofText
  dsimp only
  cases Quoted.closing? text opening <;>
    simp only [fault_bind, onlyFails_ite, onlyFails_pure, faultsIn_fault, hname, List.infix_rfl,
      implies_true, and_self]

/-- A call of a function is refused with a piece of its argument or of what follows it. -/
theorem Call.plain_failsIn {call : Call} {text : List Char} (hinner : call.inner <:+: text)
    (hrest : call.rest <:+: text) : FailsIn text call.plain := by
  have hselector := (rangeSelector_failsIn call.inner).mono hinner
  unfold Call.plain
  simp only [fault_bind, pure_bind, onlyFails_bind, onlyFails_ite, onlyFails_pure, failsIn_fault,
    hrest, hinner, hselector, implies_true, and_self]

/-! ### Queries -/

/-- An expression is refused with a piece of it, or its range exhausts the seconds. -/
theorem expression_failsIn (catalog : Catalog) (text : List Char) :
    FailsIn text (expression catalog text) := by
  -- by the recursion of the reader: no call, a call that cannot be taken apart, an aggregation
  -- without an argument, one with an argument, a function
  fun_induction expression catalog text with
  | case1 text => exact (rangeSelector_failsIn _).mono (Text.trim_infix text)
  | case2 text opening hopening e hcall =>
    have hfails : FailsIn text _ :=
      (Call.ofText_faultsIn _ opening (callOpening?_lt hopening)).failsIn (Text.trim_infix text)
    rw [hcall] at hfails
    exact (onlyFails_error e).2 ((onlyFails_error e).1 hfails)
  | case3 text => exact failsIn_fault.2 (Text.trim_infix text)
  | case4 text opening hopening call hlt hcall _ _ ih =>
    obtain ⟨hinner, hrest⟩ := infix_of_ofText hcall
    have hinner := hinner.trans (Text.trim_infix text)
    have hquery := ih.mono hinner
    have hgrouping := (grouping_faultsIn call.rest).failsIn (hrest.trans (Text.trim_infix text))
    simp only [FailsIn, fault_bind, onlyFails_bind, onlyFails_ite, onlyFails_pure, failsIn_fault,
      hinner, hquery, hgrouping, implies_true, and_self]
  | case5 text opening hopening call hlt hcall =>
    obtain ⟨hinner, hrest⟩ := infix_of_ofText hcall
    exact Call.plain_failsIn (hinner.trans (Text.trim_infix text))
      (hrest.trans (Text.trim_infix text))

/-- **Every error of the reader points into the text.** -/
theorem parse_failsIn (text : String) : FailsIn text.toList (parse text) := by
  rw [parse, FailsIn, onlyFails_ite]
  exact ⟨fun _ => failsIn_fault.2 List.infix_rfl,
    fun _ => (expression_failsIn _ _).mono (Text.trim_infix _)⟩

end Query

end Telemetry
