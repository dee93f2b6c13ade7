import Telemetry.Ingest.Export
import Telemetry.Proofs.Ingest.Batch
import Telemetry.Proofs.Otlp.Services

/-!
The account that a sender gets of an export.

Each part of a request becomes a unit or is refused, and each unit is stored or lost
(`Writer.stored`, `Writer.lost`). The outcome adds up what was left out before, what decoding
refused and what was lost, in a word of the machine, so it is exact as long as the sum fits a signed
one (`toInt_reported`). It gives the first reason there is; each step that adds to the count gives a
reason, too (`Explains`), and so there is a message exactly if something was refused.
-/

set_option autoImplicit false

namespace Telemetry

/-! ## Wording

An error is reported by its text, and an empty text would look like no error. None of the texts of
decoding is empty. -/

/-- What begins with something is not empty. -/
theorem append_ne_empty {s : String} (hs : s ≠ "") (t : String) : s ++ t ≠ "" := by
  intro h
  exact hs (String.append_eq_empty_iff.1 h).1

/-- Every error has words. -/
theorem Error.message_ne_empty (e : Error) : e.message ≠ "" := by
  cases e with
  | cancelled => decide
  | beyondRange => decide
  | query fault fragment =>
    have hfamily : "query parse error: " ++ fault.message ≠ "" := append_ne_empty (by decide) _
    exact append_ne_empty (append_ne_empty (append_ne_empty hfamily _) _) _
  | evaluation metric cause =>
    have hfamily : "evaluation error: fetch " ++ metric ≠ "" := append_ne_empty (by decide) _
    exact append_ne_empty (append_ne_empty hfamily _) _
  | _ => exact append_ne_empty (by decide) _

namespace Ingest

open Otlp (Decoded WriteUnit)
open Time (Instant)

/-- The reason for dropped units has words, too. -/
theorem droppedReason_ne_empty (count : Nat) : droppedReason count ≠ "" := by
  intro h
  exact absurd (String.append_eq_empty_iff.1 h).2 (by decide)

/-! ## What the writer stores

A writer that has stopped stores nothing. Any other stores the units that the store accepts, one
by one or all together. -/

namespace Writer

/-- The units that a writer stores: those that the store takes, and none once it has stopped. -/
def stored (writer : Writer) (now : Instant) (store : Store) (units : Submission) : Submission :=
  if writer.closed then [] else units.filter fun unit => (store.insertAll now unit).2.isOk

/-- The units that a writer does not store. -/
def lost (writer : Writer) (now : Instant) (store : Store) (units : Submission) : Submission :=
  if writer.closed then units else units.filter fun unit => !(store.insertAll now unit).2.isOk

/-- How many of some units a writer does not store: those that are dropped, and all of them once it
has stopped. -/
def refused (writer : Writer) (units : Submission) : Nat :=
  if writer.closed then units.length else dropped units

/-- The reason that a writer gives for so many lost units. -/
def reason (writer : Writer) (lost : Nat) : Option String :=
  if lost = 0 then none
  else if writer.closed then some (Error.internal .writerClosed).message
  else some (droppedReason lost)

/-- Each unit is stored or lost. -/
theorem stored_append_lost_perm (writer : Writer) (now : Instant) (store : Store)
    (units : Submission) :
    (writer.stored now store units ++ writer.lost now store units).Perm units := by
  rw [stored, lost]
  by_cases hclosed : writer.closed = true
  · rw [if_pos hclosed, if_pos hclosed, List.nil_append]
  · rw [if_neg hclosed, if_neg hclosed]
    exact List.filter_append_perm _ units

/-- A store takes a unit exactly if it accepts its records. -/
theorem isOk_insertAll (now : Instant) (store : Store) (unit : WriteUnit) :
    (store.insertAll now unit).2.isOk = decide (Store.Accepts unit) := by
  rw [Bool.eq_iff_iff, decide_eq_true_iff, ← store.insertAll_ok_iff now unit]
  cases (store.insertAll now unit).2 with
  | ok done => exact iff_of_true rfl rfl
  | error e => exact iff_of_false Bool.false_ne_true nofun

/-- How many are lost does not depend on the store. -/
theorem length_lost (writer : Writer) (now : Instant) (store : Store) (units : Submission) :
    (writer.lost now store units).length = writer.refused units := by
  rw [lost, refused]
  by_cases hclosed : writer.closed = true
  · rw [if_pos hclosed, if_pos hclosed]
  · rw [if_neg hclosed, if_neg hclosed, dropped, List.countP_eq_length_filter]
    simp only [isOk_insertAll]

/-- What is stored of the units are their records as they are, but for leap seconds. -/
theorem flatten_stored {writer : Writer} (hopen : ¬ writer.closed = true) (now : Instant)
    (store : Store) (units : Submission) :
    (writer.stored now store units).flatten.map Record.atStoredTime = keptRecords units := by
  rw [stored, if_neg hopen, keptRecords_eq_filter, List.map_flatten, List.flatMap]
  simp only [isOk_insertAll]
  refine congrArg List.flatten (List.map_congr_left fun unit hunit => ?_)
  exact (Store.storedForms_eq_map (of_decide_eq_true (List.mem_filter.1 hunit).2)).symm

end Writer

/-- Units that are submitted on their own are a batch of their own. -/
theorem drain_single (now : Instant) (batchSize : Nat) (store : Store) (units : Submission) :
    drain now batchSize store [units] =
      ((writeBatch now store [units]).1, [dropped units]) := by
  rw [drain, takeMore]
  simp only [drain, List.append_nil, writeBatch_counts]
  rfl

/-- How a submission goes: without units, or once the writer has stopped, nothing is written. -/
theorem submit_cases (now : Instant) (writer : Writer) (store : Store) (units : Submission) :
    (units = [] ∧ submit now writer store units = (store, .ok 0)) ∨
    (units ≠ [] ∧ writer.closed = true ∧
      submit now writer store units = (store, .error (.internal .writerClosed))) ∨
    (units ≠ [] ∧ ¬ writer.closed = true ∧
      submit now writer store units =
        ((writeBatch now store [units]).1, .ok (dropped units))) := by
  rw [submit]
  cases units with
  | nil => exact .inl ⟨rfl, rfl⟩
  | cons unit units =>
    refine .inr ?_
    by_cases hclosed : writer.closed = true
    · refine .inl ⟨List.cons_ne_nil _ _, hclosed, ?_⟩
      simp only [List.isEmpty_cons, Bool.false_eq_true, if_false, if_pos hclosed]
    · refine .inr ⟨List.cons_ne_nil _ _, hclosed, ?_⟩
      simp only [List.isEmpty_cons, Bool.false_eq_true, if_false, if_neg hclosed, drain_single]
      rfl

/-- After a submission the store has what the writer stores of it, behind what it had. -/
theorem contents_submit (now : Instant) (writer : Writer) (store : Store) (units : Submission) :
    (submit now writer store units).1.contents = store.contents.append
      ((writer.stored now store units).flatten.map Record.atStoredTime) := by
  obtain ⟨rfl, hsubmit⟩ | ⟨-, hclosed, hsubmit⟩ | ⟨-, hopen, hsubmit⟩ :=
    submit_cases now writer store units
  · have hnone : writer.stored now store [] = [] := ite_self []
    rw [hsubmit, hnone]
    exact store.contents.append_nil.symm
  · have hnone : writer.stored now store units = [] := if_pos hclosed
    rw [hsubmit, hnone]
    exact store.contents.append_nil.symm
  · rw [hsubmit, Writer.flatten_stored hopen, contents_writeBatch, List.flatten_singleton]

/-- How many of so many units are missing by the answer to their submission. -/
def missing (units : Nat) : Except Error Nat → Nat
  | .ok dropped => dropped
  | .error _ => units

/-- The reason that the answer to a submission gives for what is missing. -/
def reasonOf : Except Error Nat → Option String
  | .ok 0 => none
  | .ok dropped => some (droppedReason dropped)
  | .error e => some e.message

/-- The answer to a submission counts what the writer does not store. -/
theorem missing_submit (now : Instant) (writer : Writer) (store : Store) (units : Submission) :
    missing units.length (submit now writer store units).2 = writer.refused units := by
  rw [Writer.refused]
  obtain ⟨rfl, hsubmit⟩ | ⟨-, hclosed, hsubmit⟩ | ⟨-, hopen, hsubmit⟩ :=
    submit_cases now writer store units
  · rw [hsubmit]
    exact (ite_self 0).symm
  · rw [hsubmit, if_pos hclosed]
    rfl
  · rw [hsubmit, if_neg hopen]
    rfl

/-- And it gives the reason of the writer. -/
theorem reasonOf_submit (now : Instant) (writer : Writer) (store : Store) (units : Submission) :
    reasonOf (submit now writer store units).2 = writer.reason (writer.refused units) := by
  rw [Writer.refused]
  obtain ⟨rfl, hsubmit⟩ | ⟨hunits, hclosed, hsubmit⟩ | ⟨-, hopen, hsubmit⟩ :=
    submit_cases now writer store units
  · have hnone : (if writer.closed then ([] : Submission).length else dropped []) = 0 := ite_self 0
    rw [hsubmit, hnone]
    rfl
  · rw [hsubmit, if_pos hclosed, Writer.reason, if_neg (mt List.length_eq_zero_iff.1 hunits),
      if_pos hclosed]
    rfl
  · rw [hsubmit, if_neg hopen, Writer.reason]
    cases dropped units with
    | zero => rfl
    | succ n =>
      rw [if_neg (Nat.succ_ne_zero n), if_neg hopen]
      rfl

/-! ## Counts in words -/

/-- What is reported is the count, up to the greatest signed word. -/
theorem toInt_reported (count : UInt64) :
    (reported count).toInt = (min count.toNat (2 ^ 63 - 1) : Nat) := by
  rw [reported]
  by_cases hfits : count ≤ 0x7FFFFFFFFFFFFFFF
  · have hcount : count.toNat ≤ 2 ^ 63 - 1 := UInt64.le_iff_toNat_le.1 hfits
    have hword : count.toInt64.toInt = count.toNat := by
      rw [Int64.toInt, UInt64.toBitVec_toInt64]
      refine BitVec.toInt_eq_toNat_of_lt ?_
      rw [UInt64.toNat_toBitVec]
      omega
    rw [if_pos hfits, hword]
    omega
  · have hcount : ¬ count.toNat ≤ 2 ^ 63 - 1 := fun h => hfits (UInt64.le_iff_toNat_le.2 h)
    rw [if_neg hfits, Int64.toInt_maxValue]
    omega

/-- Something is reported exactly if the count is not zero. -/
theorem reported_pos_iff {count : UInt64} : 0 < reported count ↔ 0 < count.toNat := by
  rw [Int64.lt_iff_toInt_lt, toInt_reported, Int64.toInt_zero]
  omega

/-- Further counts that are added to a word wrap around together. -/
theorem toNat_add_ofNat (count : UInt64) (m n : Nat) :
    (count + .ofNat m + .ofNat n).toNat = (count.toNat + m + n) % 2 ^ 64 := by
  rw [UInt64.toNat_add, UInt64.toNat_add, UInt64.toNat_ofNat', UInt64.toNat_ofNat']
  omega

/-! ## Reasons

A reason explains a count if it is there, and in words, exactly when the count is positive.
Reasons of stages one after another explain the sum of their counts. -/

/-- Whether a reason explains a count: there is one exactly if the count is not zero, and it has
words. -/
structure Explains (reason : Option String) (count : Nat) : Prop where
  isSome_iff : reason.isSome = true ↔ 0 < count
  worded : reason ≠ some ""

namespace Explains

variable {reason reason' : Option String} {count count' : Nat}

/-- The message has words exactly if there is something to explain. -/
theorem getD_ne_empty_iff (h : Explains reason count) : reason.getD "" ≠ "" ↔ 0 < count := by
  rw [← h.isSome_iff]
  have hworded := h.worded
  cases reason with
  | none => simp
  | some text => simpa using hworded

/-- The first of two reasons explains both counts. -/
theorem orElse (h : Explains reason count) (h' : Explains reason' count') :
    Explains (reason <|> reason') (count + count') := by
  cases reason with
  | none =>
    have hzero : count = 0 := by simpa using h.isSome_iff
    rw [hzero, Nat.zero_add]
    exact h'
  | some text =>
    have hpos : 0 < count := h.isSome_iff.1 rfl
    exact ⟨iff_of_true rfl (Nat.add_pos_left hpos _), h.worded⟩

/-- Errors explain what they refuse. -/
theorem of_error {first : Option Error} (h : first.isSome = true ↔ 0 < count) :
    Explains (first.map Error.message) count := by
  refine ⟨by rwa [Option.isSome_map], ?_⟩
  cases first with
  | none => exact nofun
  | some e => exact fun heq => e.message_ne_empty (Option.some.inj heq)

/-- A writer explains what it loses. -/
theorem of_writer (writer : Writer) (lost : Nat) : Explains (writer.reason lost) lost := by
  rw [Writer.reason]
  by_cases hnone : lost = 0
  · rw [if_pos hnone, hnone]
    exact ⟨by simp, nofun⟩
  · rw [if_neg hnone]
    have hlost : 0 < lost := Nat.pos_of_ne_zero hnone
    by_cases hclosed : writer.closed = true
    · rw [if_pos hclosed]
      exact ⟨iff_of_true rfl hlost, fun heq => Error.message_ne_empty _ (Option.some.inj heq)⟩
    · rw [if_neg hclosed]
      exact ⟨iff_of_true rfl hlost, fun heq => droppedReason_ne_empty _ (Option.some.inj heq)⟩

/-- Decoding explains what it refuses. -/
theorem of_decode (request : Otlp.Request) (received : Instant) :
    Explains ((request.decode received).firstError.map Error.message)
      (request.decode received).rejected := by
  refine of_error ?_
  rw [Otlp.Request.decode_eq_ofResults]
  exact Decoded.isSome_firstError_iff _

end Explains

/-! ## Accounts of exports -/

/-- The answer to a submission adds what is missing, and its reason. -/
theorem Rejections.afterSubmission_eq_add (r : Rejections) (units : Nat)
    (answer : Except Error Nat) :
    r.afterSubmission units answer = r.add (missing units answer) (reasonOf answer) := by
  cases answer with
  | error e => rfl
  | ok dropped =>
    cases dropped with
    | succ n => rfl
    | zero =>
      obtain ⟨count, firstError⟩ := r
      show _ = Rejections.mk (count + 0) (firstError <|> none)
      rw [UInt64.add_zero]
      cases firstError <;> rfl

/-- The outcome of an export reports the sum of all that was refused, and the first reason. -/
theorem outcome_accept (now : Instant) (writer : Writer) (store : Store) (prior : Rejections)
    (request : Otlp.Request) :
    (accept now writer store prior request).2 =
      let decoded := request.decode now
      let lost := (writer.lost now store decoded.units).length
      { rejected := reported (prior.count + .ofNat decoded.rejected + .ofNat lost)
        errorMessage := ((prior.firstError <|> decoded.firstError.map Error.message) <|>
          writer.reason lost).getD "" } := by
  have haccept : (accept now writer store prior request).2 =
      ((prior.add (request.decode now).rejected
        ((request.decode now).firstError.map Error.message)).afterSubmission
          (request.decode now).units.length
          (submit now writer store (request.decode now).units).2).report := rfl
  rw [haccept, Rejections.afterSubmission_eq_add, missing_submit, reasonOf_submit,
    ← writer.length_lost]
  rfl

/-- **The account of an export.** Nothing of an export goes missing without being counted.

Each part of a request becomes one unit or one refusal, whatever the other parts are, and the
records of the unit belong to the service that the resource of the part names. The first reason is
that of the first part that is refused. Whatever was refused before, the store gains exactly the
units that the writer stores, in order, and the outcome reports the sum of what was refused before,
what decoding refused and the units that were lost. This is a sum of words, reported as a signed
one: it is the sum of the numbers as long as that fits, as it does for items that were ever in
memory, and else the greatest. The message is the first reason there is, and if what was refused
before is explained, there is one exactly if something was refused. -/
theorem export_accounting (r : Otlp.Request) :
    r.parts.length = r.subRecords ∧
    (∀ received,
      (r.decode received).units.length + (r.decode received).rejected = r.subRecords ∧
      (∀ p ∈ r.parts, (∃ unit ≠ [], p.decode received = { units := [unit] } ∧
          ∃ name, Otlp.NamesService p.attributes name ∧
            ∀ record ∈ unit, record.service = name) ∨
        ∃ e, p.decode received = { rejected := 1, firstError := some e }) ∧
      (r.decode received).units = r.parts.flatMap (fun p => (p.decode received).units) ∧
      (r.decode received).firstError =
        r.parts.findSome? (fun p => (p.decode received).firstError) ∧
      (∀ r' both, r.append? r' = some both →
        both.decode received = r.decode received ++ r'.decode received) ∧
      ∀ r', r.DifferInPart r' → ∃ before p p' after us vs,
        r.parts = before ++ p :: after ∧ r'.parts = before ++ p' :: after ∧
        (r.decode received).units = us ++ (p.decode received).units ++ vs ∧
        (r'.decode received).units = us ++ (p'.decode received).units ++ vs) ∧
    ∀ (now : Instant) (writer : Writer) (store : Store) (prior : Rejections),
      let decoded := r.decode now
      let stored := writer.stored now store decoded.units
      let lost := writer.lost now store decoded.units
      let total := prior.count.toNat + decoded.rejected + lost.length
      let after := (accept now writer store prior r).1
      let outcome := (accept now writer store prior r).2
      (stored ++ lost).Perm decoded.units ∧
      after.contents = store.contents.append (stored.flatten.map Record.atStoredTime) ∧
      outcome.rejected = reported (prior.count + .ofNat decoded.rejected + .ofNat lost.length) ∧
      outcome.rejected.toInt = (min (total % 2 ^ 64) (2 ^ 63 - 1) : Nat) ∧
      (total < 2 ^ 63 → outcome.rejected.toInt = total) ∧
      outcome.errorMessage = ((prior.firstError <|> decoded.firstError.map Error.message) <|>
        writer.reason lost.length).getD "" ∧
      ((prior.firstError.isSome = true ↔ 0 < prior.count) → prior.firstError ≠ some "" →
        total < 2 ^ 64 → (outcome.errorMessage ≠ "" ↔ 0 < outcome.rejected)) := by
  refine ⟨r.length_parts, fun received => ⟨r.length_units_add_rejected received, ?_,
    r.units_eq_flatMap_parts, r.firstError_eq_findSome_parts, ?_, ?_⟩, ?_⟩
  -- each part has one outcome, and its service is the one that its resource names
  · intro p hp
    obtain ⟨unit, hunit, hdecode⟩ | hrefused := Otlp.Request.decode_of_mem_parts hp
    · have hmem : unit ∈ (p.decode received).units := hdecode ▸ List.mem_cons_self
      exact .inl ⟨unit, hunit, hdecode, Otlp.Request.services_of_mem_parts hp hmem⟩
    · exact .inr hrefused
  · intro r' both h
    exact Otlp.Request.decode_append h
  · intro r' h
    exact h.units received
  · intro now writer store prior decoded stored lost total after outcome
    have houtcome : outcome = _ := outcome_accept now writer store prior r
    -- the sum of three words wraps where it is too great, and what is reported is cut at the
    -- greatest signed word
    have hcount : (prior.count + .ofNat decoded.rejected + .ofNat lost.length).toNat =
        total % 2 ^ 64 := toNat_add_ofNat _ _ _
    have hreported : outcome.rejected.toInt = (min (total % 2 ^ 64) (2 ^ 63 - 1) : Nat) := by
      rw [houtcome]
      exact (toInt_reported _).trans (by rw [hcount])
    refine ⟨writer.stored_append_lost_perm now store _, contents_submit now writer store _,
      by rw [houtcome], hreported, fun hfits => ?_, by rw [houtcome], fun hset hworded hfits => ?_⟩
    · rw [hreported, Nat.mod_eq_of_lt (by omega)]
      omega
    -- each of the three counts is positive exactly if there is a reason for it
    · have hprior : Explains prior.firstError prior.count.toNat := ⟨hset, hworded⟩
      have hexplained := (hprior.orElse (.of_decode r now)).orElse (.of_writer writer lost.length)
      rw [houtcome]
      rw [hexplained.getD_ne_empty_iff, reported_pos_iff, hcount, Nat.mod_eq_of_lt hfits]

/-- An export with a metric of two points, one without data, and one with neither name nor point. -/
def mixedExport (value : Otlp.NumberValue) : Otlp.Request :=
  .metrics ⟨[{ scopes := [{ items := [
    { name := "cpu", data := some (.gauge [{ value }, {}]) },
    { name := "memory" },
    { data := some (.summary []) }] }] }]⟩

/-- Where three items were refused before and the writer has stopped, seven are refused of this
export. -/
theorem export_accounting_of_mixedExport :
    (∀ received,
      ((mixedExport (.int 1)).decode received).units.length +
        ((mixedExport (.int 1)).decode received).rejected = 4 ∧
      (∃ both, (mixedExport (.int 1)).append? (mixedExport (.int 2)) = some both ∧
        both.decode received =
          (mixedExport (.int 1)).decode received ++ (mixedExport (.int 2)).decode received) ∧
      (mixedExport (.int 1)).DifferInPart (mixedExport (.int 2)) ∧
      ∃ before p p' after us vs,
        (mixedExport (.int 1)).parts = before ++ p :: after ∧
        (mixedExport (.int 2)).parts = before ++ p' :: after ∧
        ((mixedExport (.int 1)).decode received).units = us ++ (p.decode received).units ++ vs ∧
        ((mixedExport (.int 2)).decode received).units = us ++ (p'.decode received).units ++ vs) ∧
    ∀ (now : Instant) (store : Store),
      let outcome := (accept now { closed := true } store ⟨3, some "decode error: no number"⟩
        (mixedExport (.int 1))).2
      outcome.rejected.toInt = 7 ∧ (outcome.errorMessage ≠ "" ↔ 0 < outcome.rejected) := by
  obtain ⟨-, hdecode, haccept⟩ := export_accounting (mixedExport (.int 1))
  have hdiffer : (mixedExport (.int 1)).DifferInPart (mixedExport (.int 2)) :=
    ⟨[], _, _, [], rfl, rfl, rfl, [], _, _, [], rfl, rfl, rfl, [], _, _, _, rfl, rfl,
      [], _, _, _, rfl, rfl, trivial⟩
  refine ⟨fun received => ?_, fun now store => ?_⟩
  · obtain ⟨hcount, -, -, -, happend, hchange⟩ := hdecode received
    exact ⟨hcount, ⟨_, rfl, happend _ _ rfl⟩, hdiffer, hchange _ hdiffer⟩
  · obtain ⟨-, -, -, -, hexact, -, hmessage⟩ :=
      haccept now { closed := true } store ⟨3, some "decode error: no number"⟩
    -- three from before, three at decoding, and the one unit
    exact ⟨hexact (show 7 < 2 ^ 63 by decide),
      hmessage (by decide) (by decide) (show 7 < 2 ^ 64 by decide)⟩

end Ingest

end Telemetry
