import Telemetry.Proofs.Ingest.Accounting
import Telemetry.Proofs.Otlp.RecordFaults
import Telemetry.Proofs.Otlp.RecordIsolation

/-!
Which reason a sender gets for the records that were dropped.

A span or a log record that comes as JSON passes two stages, its conversion and its decoding, and an
export passes them as a whole: all of its records are converted before the first of them is decoded.
Each stage keeps the first of its own reasons, and one of conversion goes before one of decoding. So
the reason is that of the first record in the body that was dropped (`Outcome.Reports`), unless that
one was dropped at decoding and a later one at conversion.
-/

set_option autoImplicit false

namespace Telemetry.Ingest

open Fallible (OnlyFails)
open Otlp (Decoded IsDecoding WriteUnit)
open Otlp.FromJson
open Time (Instant)

/-! ## Dropped records

A record may be dropped when its JSON is converted, and when what it converts to is decoded. The
first stage goes through all records before the second one begins, so its reasons come first. -/

/-- Why a record is dropped: it does not convert, or what it converts to does not decode. -/
inductive Drop where
  | conversion (fault : DecodeFault)
  | decoding (e : Error)

namespace Drop

/-- The error of a dropped record. -/
def error : Drop → Error
  | .conversion fault => .decode fault
  | .decoding e => e

/-- The error of a record that does not convert. -/
def conversion? : Drop → Option Error
  | .conversion fault => some (.decode fault)
  | .decoding _ => none

/-- The error of a record that does not decode. -/
def decoding? : Drop → Option Error
  | .conversion _ => none
  | .decoding e => some e

/-- Whether the error of a dropped record is one of the stage at which it was dropped. -/
def Proper : Drop → Prop
  | .conversion fault => fault.OfConversion
  | .decoding e => IsDecoding e

end Drop

/-- The error that is kept of dropped records: the first one of conversion, else the first one of
decoding. -/
def kept (drops : List Drop) : Option Error :=
  drops.findSome? Drop.conversion? <|> drops.findSome? Drop.decoding?

/-- What is kept of dropped records is worded like the error of the first of them, if that one did
not convert, or if all of them did. -/
theorem message_kept_cons_iff {d : Drop} {rest : List Drop}
    (hproper : ∀ d' ∈ d :: rest, d'.Proper) :
    (kept (d :: rest)).map Error.message = some d.error.message ↔
      d.conversion? ≠ none ∨ ∀ d' ∈ rest, d'.conversion? = none := by
  cases d with
  | conversion fault => exact iff_of_true rfl (.inl nofun)
  | decoding e =>
    have hkept : kept (.decoding e :: rest) = some ((rest.findSome? Drop.conversion?).getD e) := by
      rw [kept, List.findSome?_cons, List.findSome?_cons]
      cases rest.findSome? Drop.conversion? <;> rfl
    rw [hkept, ← List.findSome?_eq_none_iff, or_iff_right (fun h => h rfl)]
    cases hfirst : rest.findSome? Drop.conversion? with
    | none => exact iff_of_true rfl rfl
    | some e' =>
      -- a record behind the first did not convert, and its error is worded differently
      refine iff_of_false ?_ nofun
      obtain ⟨g, hg, rfl⟩ : IsDecoding e := hproper _ List.mem_cons_self
      obtain ⟨d', hd', he'⟩ := List.exists_of_findSome?_eq_some hfirst
      cases d' with
      | decoding e => cases he'
      | conversion fault =>
        cases he'
        have hfault : fault.OfConversion := hproper _ (List.mem_cons_of_mem _ hd')
        exact fun h => DecodeFault.message_ne_of_stages hfault hg (Option.some.inj h)

/-! ## Stages

Each stage counts the records it drops and keeps the first reason. Put together in the order of
the stages, this is the number of dropped records and the reason that is kept of them. -/

/-- The two stages that records of a kind pass, and why records are dropped at them. -/
structure Stages (α : Type) where
  convert : Json → Except DecodeFault α
  decode : String → α → Except Error WriteUnit
  convert_fails : ∀ v, OnlyFails DecodeFault.OfConversion (convert v)
  decode_fails : ∀ service a, OnlyFails IsDecoding (decode service a)

/-- The stages of a span. -/
def spanStages : Stages Otlp.Span where
  convert := span
  decode service s := (Otlp.decodeSpan service s).map fun s => [.span s]
  convert_fails := span_fails
  decode_fails service s := Fallible.onlyFails_map.2 (Otlp.decodeSpan_fails service s)

/-- The stages of a log record that was received at an instant. -/
def logStages (received : Instant) : Stages Otlp.LogRecord where
  convert := logRecord
  decode service r := (Otlp.decodeLog service received r).map fun l => [.log l]
  convert_fails := logRecord_fails
  decode_fails service r := Fallible.onlyFails_map.2 (Otlp.decodeLog_fails service received r)

/-- The service of the resource of a group. -/
def service (g : ResourceGroupForm) : String :=
  Otlp.serviceName <| g.resource.map fun r =>
    { attributes := (keepConvertible r.attributes).1, droppedAttributes := r.droppedAttributes }

/-- The plain values of all items in the order of the body, each with the service of its resource.
-/
def placedItems (gs : List ResourceGroupForm) : List (String × Json) :=
  gs.flatMap fun g => g.scopes.flatMap fun s => s.items.map fun v => (service g, v)

theorem map_snd_placedItems (gs : List ResourceGroupForm) :
    (placedItems gs).map Prod.snd = rawItems gs := by
  simp only [placedItems, rawItems, List.map_flatMap, List.map_map, Function.comp_def, List.map_id']

namespace Stages

variable {α : Type} (st : Stages α)

/-- Why an item is dropped, if it is. -/
def drop? (item : String × Json) : Option Drop :=
  match st.convert item.2 with
  | .error fault => some (.conversion fault)
  | .ok a =>
    match st.decode item.1 a with
    | .error e => some (.decoding e)
    | .ok _ => none

/-- Why items are dropped, in the order of the body. -/
def drops (gs : List ResourceGroupForm) : List Drop := (placedItems gs).filterMap st.drop?

/-- Each drop is one of its stage, with a message of this stage. -/
theorem proper_drops (gs : List ResourceGroupForm) : ∀ d ∈ st.drops gs, d.Proper := by
  intro d hd
  obtain ⟨item, -, hdrop⟩ := List.mem_filterMap.1 hd
  rw [drop?] at hdrop
  split at hdrop
  next fault hfault => exact Option.some.inj hdrop ▸ st.convert_fails _ _ hfault
  next a _ =>
    split at hdrop
    next e he => exact Option.some.inj hdrop ▸ st.decode_fails _ _ _ he
    next => cases hdrop

/-- The reasons of conversion are those of all items that do not convert. -/
theorem flatMap_faultsOf (gs : List ResourceGroupForm) :
    ((rawItems gs).flatMap (faultsOf st.convert)).map Error.decode =
      (st.drops gs).filterMap Drop.conversion? := by
  rw [← map_snd_placedItems, drops]
  induction placedItems gs with
  | nil => rfl
  | cons item items ih =>
    rw [List.map_cons, List.flatMap_cons, List.map_append, ih, List.filterMap_cons, faultsOf, drop?]
    cases st.convert item.2 with
    | error fault => rfl
    | ok a =>
      cases h : st.decode item.1 a <;> simp only [h] <;> rfl

/-- The export that groups convert to. -/
def exportOf (gs : List ResourceGroupForm) : Otlp.Export α :=
  ⟨gs.map (ResourceGroupForm.converted (fateOf st.convert))⟩

/-- Its items are those that convert. -/
theorem items_exportOf (gs : List ResourceGroupForm) :
    (st.exportOf gs).items = (placedItems gs).filterMap fun item =>
      (st.convert item.2).toOption.map fun a => (item.1, a) := by
  simp only [exportOf, Otlp.Export.items, placedItems, List.flatMap_map, List.filterMap_flatMap,
    ResourceGroupForm.converted, ScopeGroupForm.converted, List.filterMap_map, List.map_filterMap,
    fst_fateOf]
  rfl

/-- What decoding it refuses is what does not decode. -/
theorem decoded_exportOf (gs : List ResourceGroupForm) :
    let decoded := Decoded.ofResults ((st.exportOf gs).items.map fun (service, a) =>
      st.decode service a)
    decoded.rejected = ((st.drops gs).filterMap Drop.decoding?).length ∧
      decoded.firstError = ((st.drops gs).filterMap Drop.decoding?).head? := by
  rw [items_exportOf, drops]
  induction placedItems gs with
  | nil => exact ⟨rfl, rfl⟩
  | cons item items ih =>
    rw [List.filterMap_cons, List.filterMap_cons, drop?]
    cases st.convert item.2 with
    | error fault => exact ih
    | ok a =>
      cases h : st.decode item.1 a with
      | error e =>
        simpa [h, Decoded.ofResults, Drop.decoding?, Except.toOption] using ih.1
      | ok unit => simpa [h, Decoded.ofResults, Except.toOption] using ih

end Stages

/-! ## Outcomes -/

/-- A submission is answered without a loss exactly if the writer refuses nothing. -/
theorem submit_eq_ok_zero_iff {now : Instant} {writer : Writer} {store : Store}
    {units : Submission} :
    (submit now writer store units).2 = .ok 0 ↔ writer.refused units = 0 := by
  have hreason := reasonOf_submit now writer store units
  have hnone : writer.reason (writer.refused units) = none ↔ writer.refused units = 0 := by
    have hexplained := (Explains.of_writer writer (writer.refused units)).isSome_iff
    rw [← Option.not_isSome_iff_eq_none, hexplained, Nat.pos_iff_ne_zero, not_not]
  rw [← hnone, ← hreason]
  -- of all answers only this one gives no reason
  cases (submit now writer store units).2 with
  | error e => exact iff_of_false nofun nofun
  | ok dropped =>
    cases dropped with
    | zero => exact iff_of_true rfl rfl
    | succ n => exact iff_of_false nofun nofun

/-- Each drop belongs to one of the two stages. -/
theorem length_filterMap_stages (drops : List Drop) :
    (drops.filterMap Drop.conversion?).length + (drops.filterMap Drop.decoding?).length =
      drops.length := by
  induction drops with
  | nil => rfl
  | cons d drops ih =>
    rw [List.length_cons, ← ih]
    cases d with
    | conversion fault => exact Nat.add_right_comm _ 1 _
    | decoding e => rfl

/-- A message that has words is the reason. -/
theorem getD_eq_iff {text : String} (htext : text ≠ "") (reason : Option String) :
    reason.getD "" = text ↔ reason = some text := by
  cases reason with
  | none => exact iff_of_false (fun h => htext h.symm) (Option.some_ne_none text).symm
  | some words => exact (Option.some_inj).symm

/-- Whether an outcome counts dropped records and gives the reason that is kept of them. That is the
one of the first of them, unless this one did not decode and a later one did not convert. -/
structure Outcome.Reports (o : Outcome) (drops : List Drop) : Prop where
  rejected : o.rejected = reported (.ofNat drops.length)
  rejected_toInt : drops.length < 2 ^ 63 → o.rejected.toInt = drops.length
  errorMessage : o.errorMessage = ((kept drops).map Error.message).getD ""
  first_iff : ∀ d rest, drops = d :: rest →
    (o.errorMessage = d.error.message ↔
      d.conversion? ≠ none ∨ ∀ d' ∈ rest, d'.conversion? = none)

/-- Something is reported as refused exactly if a record was dropped. -/
theorem Outcome.Reports.rejected_pos_iff {o : Outcome} {drops : List Drop} (h : o.Reports drops)
    (hfits : drops.length < 2 ^ 63) : 0 < o.rejected ↔ 0 < drops.length := by
  rw [Int64.lt_iff_toInt_lt, h.rejected_toInt hfits, Int64.toInt_zero]
  omega

namespace Stages

variable {α : Type} (st : Stages α)

/-- The rejections of an export whose records are all stored once they are decoded. -/
theorem rejections_eq (gs : List ResourceGroupForm) :
    let losses := (gs.map (ResourceGroupForm.losses (fateOf st.convert))).sum
    let decoded := Decoded.ofResults ((st.exportOf gs).items.map fun (service, a) =>
      st.decode service a)
    (Rejections.ofLosses losses).add decoded.rejected (decoded.firstError.map Error.message) =
      ⟨.ofNat (st.drops gs).length, (kept (st.drops gs)).map Error.message⟩ := by
  intro losses decoded
  obtain ⟨hlost, hfirst⟩ := losses_of_faults (snd_fateOf st.convert) gs
  obtain ⟨hrefused, hnext⟩ := st.decoded_exportOf gs
  rw [← List.length_map Error.decode, flatMap_faultsOf] at hlost
  rw [← List.head?_map, flatMap_faultsOf] at hfirst
  rw [Rejections.add, Rejections.ofLosses, Rejections.mk.injEq]
  constructor
  · rw [hlost, hrefused, ← UInt64.ofNat_add, length_filterMap_stages]
  · rw [hfirst, hnext, kept, List.head?_filterMap, List.head?_filterMap]
    cases (st.drops gs).findSome? Drop.conversion? <;> rfl

/-- What is stored without a loss adds nothing to it. -/
theorem reports_accept {now : Instant} {writer : Writer} {store : Store} {request : Otlp.Request}
    {gs : List ResourceGroupForm}
    (hdecode : request.decode now =
      .ofResults ((st.exportOf gs).items.map fun (service, a) => st.decode service a))
    (hstored : (submit now writer store (request.decode now).units).2 = .ok 0) :
    (accept now writer store
      (.ofLosses (gs.map (ResourceGroupForm.losses (fateOf st.convert))).sum)
      request).2.Reports (st.drops gs) := by
  have haccept : ∀ prior : Rejections, (accept now writer store prior request).2 =
      (prior.add (request.decode now).rejected
        ((request.decode now).firstError.map Error.message)).report := by
    intro prior
    show (Rejections.afterSubmission _ _
      (submit now writer store (request.decode now).units).2).report = _
    rw [hstored]
    rfl
  rw [haccept, hdecode, st.rejections_eq gs]
  refine ⟨rfl, fun hfits => ?_, rfl, fun d rest hdrops => ?_⟩
  · show (reported _).toInt = _
    rw [toInt_reported, UInt64.toNat_ofNat', Nat.mod_eq_of_lt (by omega)]
    omega
  · rw [Rejections.report, getD_eq_iff d.error.message_ne_empty, hdrops]
    exact message_kept_cons_iff (hdrops ▸ st.proper_drops gs)

end Stages

/-- **The reason for dropped spans and log records.** If all that is decoded of an export is stored,
the sender gets the number of records that were dropped. The reason is the one that is kept of them:
that of the first record in the body that was dropped, unless it did not decode and a later one did
not convert. -/
theorem reports_dropped (now : Instant) (writer : Writer) (store : Store) (body : List UInt8)
    (gs : List ResourceGroupForm) :
    (envelope traceNaming body = .ok gs → ∃ request losses,
      Otlp.Request.ofJson .traces body = .ok (request, losses) ∧
      ((submit now writer store (request.decode now).units).2 = .ok 0 →
        (accept now writer store (.ofLosses losses) request).2.Reports (spanStages.drops gs))) ∧
    (envelope logNaming body = .ok gs → ∃ request losses,
      Otlp.Request.ofJson .logs body = .ok (request, losses) ∧
      ((submit now writer store (request.decode now).units).2 = .ok 0 →
        (accept now writer store (.ofLosses losses) request).2.Reports
          ((logStages now).drops gs))) := by
  constructor
  · intro hgs
    exact ⟨_, _, Otlp.Request.ofJson_of_envelope hgs,
      fun hstored => spanStages.reports_accept rfl hstored⟩
  · intro hgs
    exact ⟨_, _, Otlp.Request.ofJson_of_envelope hgs,
      fun hstored => (logStages now).reports_accept rfl hstored⟩

/-- A record that converts but does not decode: a span without an identifier, or a log record whose
time is out of range. -/
def undecodable : RecordKind → List (String × Json)
  | .logs => [("timeUnixNano", .string "18446744073709551615")]
  | _ => []

/-- A record that does not convert. -/
def unconvertible : List (String × Json) := [("traceId", .string "0")]

/-- A record that is stored. -/
def storable : RecordKind → List (String × Json)
  | .logs => []
  | _ => [("spanId", .string "02"), ("traceId", .string "01")]

/-- Groups with the first before the second, and the third behind them. -/
def lateConversion (kind : RecordKind) : List ResourceGroupForm :=
  [{ scopes := [{ items :=
    [.object (undecodable kind), .object unconvertible, .object (storable kind)] }] }]

/-- The text of the three records. -/
def lateConversionText : RecordKind → String
  | .logs => "\x7b\"timeUnixNano\":\"18446744073709551615\"\x7d,\x7b\"traceId\":\"0\"\x7d,\x7b\x7d"
  | _ => "\x7b\x7d,\x7b\"traceId\":\"0\"\x7d,\x7b\"spanId\":\"02\",\"traceId\":\"01\"\x7d"

/-- The body of an export of the three records. -/
def lateConversionBody (kind : RecordKind) : List UInt8 :=
  bodyAround (lateConversionText kind).toList kind

/-- The value that is read of it. -/
def lateConversionJson (kind : RecordKind) : Json :=
  .object [(kind.naming.resources, .array [.object [(kind.naming.scopes, .array
    [.object [(kind.naming.items, .array
      [.object (undecodable kind), .object unconvertible, .object (storable kind)])]])]])]

/-- The envelope of the body below is read. -/
theorem envelope_lateConversionBody (kind : RecordKind) (hkind : kind ≠ .metrics) :
    envelope kind.naming (lateConversionBody kind) = .ok (lateConversion kind) := by
  have hread : Json.read (lateConversionBody kind) = .ok (lateConversionJson kind) := by
    cases kind with
    | metrics => exact absurd rfl hkind
    | traces => exact Json.read_of_readsAs (by decide +kernel)
    | logs => exact Json.read_of_readsAs (by decide +kernel)
  rw [envelope_of_read hread]
  cases kind <;> rfl

/-- Why the two spans are dropped. -/
theorem drops_lateConversion_traces : spanStages.drops (lateConversion .traces) =
    [.decoding (.decode .emptyTraceId), .conversion (.inField "traceId" (.oddHex "0"))] := by
  rfl

/-- What is dropped of it, in the order of its records. -/
theorem drops_lateConversion_logs (now : Instant) :
    (logStages now).drops (lateConversion .logs) =
      [.decoding (.decode (.timestampOutOfRange 18446744073709551615)),
        .conversion (.inField "traceId" (.oddHex "0"))] := by
  rfl

/-- The writer refuses nothing of what is left. -/
theorem stored_lateConversion_traces (store : Store) :
    (submit .epoch {} store (Otlp.Request.decode .epoch
      (.traces (spanStages.exportOf (lateConversion .traces)))).units).2 = .ok 0 :=
  submit_eq_ok_zero_iff.2 (by decide +kernel)

/-- The rest of it is stored. -/
theorem stored_lateConversion_logs (store : Store) :
    (submit .epoch {} store (Otlp.Request.decode .epoch
      (.logs ((logStages .epoch).exportOf (lateConversion .logs)))).units).2 = .ok 0 :=
  submit_eq_ok_zero_iff.2 (by decide +kernel)

/-- The theorem for both kinds of record: the reason that is reported is that of the later one. -/
theorem reports_dropped_of_lateConversion :
    ∀ store : Store,
      (∃ request losses,
        Otlp.Request.ofJson .traces (lateConversionBody .traces) = .ok (request, losses) ∧
        (request.decode .epoch).units.length = 1 ∧
        (submit .epoch {} store (request.decode .epoch).units).2 = .ok 0 ∧
        (accept .epoch {} store (.ofLosses losses) request).2.Reports
          [.decoding (.decode .emptyTraceId), .conversion (.inField "traceId" (.oddHex "0"))]) ∧
      ∃ request losses,
        Otlp.Request.ofJson .logs (lateConversionBody .logs) = .ok (request, losses) ∧
        (request.decode .epoch).units.length = 1 ∧
        (submit .epoch {} store (request.decode .epoch).units).2 = .ok 0 ∧
        (accept .epoch {} store (.ofLosses losses) request).2.Reports
          [.decoding (.decode (.timestampOutOfRange 18446744073709551615)),
            .conversion (.inField "traceId" (.oddHex "0"))] := by
  intro store
  have htraces := envelope_lateConversionBody .traces nofun
  have hlogs := envelope_lateConversionBody .logs nofun
  constructor
  · obtain ⟨request, losses, hjson, hreports⟩ := (reports_dropped .epoch {} store _ _).1 htraces
    obtain ⟨rfl, -⟩ := Prod.mk.inj (Except.ok.inj (hjson.symm.trans
      (Otlp.Request.ofJson_of_envelope htraces)))
    have hstored := stored_lateConversion_traces store
    exact ⟨_, losses, hjson, rfl, hstored, drops_lateConversion_traces ▸ hreports hstored⟩
  · obtain ⟨request, losses, hjson, hreports⟩ := (reports_dropped .epoch {} store _ _).2 hlogs
    obtain ⟨rfl, -⟩ := Prod.mk.inj (Except.ok.inj (hjson.symm.trans
      (Otlp.Request.ofJson_of_envelope hlogs)))
    have hstored := stored_lateConversion_logs store
    exact ⟨_, losses, hjson, rfl, hstored, drops_lateConversion_logs .epoch ▸ hreports hstored⟩

/-- So the reason is not always that of the first record that was dropped: here the first span does
not decode, and the second one does not convert. -/
theorem reason_of_later_record :
    ¬ ∀ (now : Instant) (writer : Writer) (store : Store) (body : List UInt8)
        (gs : List ResourceGroupForm) (request : Otlp.Request) (losses : Losses),
      envelope traceNaming body = .ok gs →
      Otlp.Request.ofJson .traces body = .ok (request, losses) →
      (submit now writer store (request.decode now).units).2 = .ok 0 →
      0 < (accept now writer store (.ofLosses losses) request).2.rejected →
      ∀ d rest, spanStages.drops gs = d :: rest →
        (accept now writer store (.ofLosses losses) request).2.errorMessage = d.error.message := by
  intro h
  have hgroups := envelope_lateConversionBody .traces nofun
  have hstored := stored_lateConversion_traces {}
  have hreports : (accept .epoch {} {} _ (.traces (spanStages.exportOf
      (lateConversion .traces)))).2.Reports (spanStages.drops (lateConversion .traces)) :=
    spanStages.reports_accept rfl hstored
  rw [drops_lateConversion_traces] at hreports
  have hfirst := h .epoch {} {} _ _ _ _ hgroups (Otlp.Request.ofJson_of_envelope hgroups) hstored
    ((hreports.rejected_pos_iff (by decide)).2 Nat.two_pos) _ _ drops_lateConversion_traces
  obtain hconversion | hall := (hreports.first_iff _ _ rfl).1 hfirst
  · exact hconversion rfl
  · cases hall _ List.mem_cons_self

end Telemetry.Ingest
