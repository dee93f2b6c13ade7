import Telemetry.Otlp.Decode
import Telemetry.Proofs.Otlp.AttributeLoss

/-!
Why a span or a log record is dropped.

One that comes as JSON passes two stages: it is read and converted, and then it is decoded. Each
stage has reasons of its own (`OfConversion`, `OfDecoding`), and no reason of one stage is worded
like one of the other, so a sender can tell from the message at which stage a record was dropped.
-/

set_option autoImplicit false

namespace Telemetry

open Fallible

/-! ## Reasons -/

/-- The fields that hold identifiers. -/
def identifierFields : List String := ["traceId", "spanId", "parentSpanId"]

/-- Whether a fault is one of converting a span or a log record. -/
inductive DecodeFault.OfConversion : DecodeFault → Prop
  | malformedRecord (fault : Json.Fault) : OfConversion (.malformedRecord fault)
  | unknownValue (field name : String) : OfConversion (.unknownValue field name)
  | invalidBytes (fault : Text.Base64.Fault) : OfConversion (.invalidBytes fault)
  | inField {field : String} (hfield : field ∈ identifierFields) (fault : DecodeFault) :
    OfConversion (.inField field fault)

/-- Whether a fault is one of decoding a span or a log record. -/
inductive DecodeFault.OfDecoding : DecodeFault → Prop
  | emptyTraceId : OfDecoding .emptyTraceId
  | emptySpanId : OfDecoding .emptySpanId
  | timestampOutOfRange (nanos : Nat) : OfDecoding (.timestampOutOfRange nanos)

/-! ## Wording -/

/-- The first letters of a text. -/
def firstLetters (s : String) : List Char := s.toList.take 5

theorem firstLetters_append {a : String} (ha : 5 ≤ a.toList.length) (x : String) :
    firstLetters (a ++ x) = firstLetters a := by
  rw [firstLetters, firstLetters, String.toList_append, List.take_append_of_le_length ha]

/-- How the messages of faults of conversion begin. -/
def conversionWords : List String :=
  "malformed record: " :: "unknown " :: "invalid bytesValue: " :: identifierFields

/-- How the messages of faults of decoding begin. -/
def decodingWords : List String := ["span has an empty", "timestamp out of range: "]

/-- A message of a fault of conversion begins with one of a few words. -/
theorem DecodeFault.OfConversion.exists_word {f : DecodeFault} (h : f.OfConversion) :
    ∃ w ∈ conversionWords, firstLetters f.message = firstLetters w := by
  -- each message begins with a fixed word, or with the name of the field it is about
  cases h with
  | malformedRecord fault =>
    exact ⟨"malformed record: ", by simp [conversionWords], firstLetters_append (by decide) _⟩
  | unknownValue field name =>
    have hmessage : (DecodeFault.unknownValue field name).message =
        "unknown " ++ (field ++ (" value: " ++ name)) := by
      rw [← String.append_assoc, ← String.append_assoc]
      rfl
    refine ⟨"unknown ", by simp [conversionWords], ?_⟩
    rw [hmessage, firstLetters_append (by decide)]
  | invalidBytes fault =>
    exact ⟨"invalid bytesValue: ", by simp [conversionWords], firstLetters_append (by decide) _⟩
  | @inField field hfield fault =>
    have hlong : ∀ field ∈ identifierFields, 5 ≤ field.toList.length := by decide
    have hmessage : (DecodeFault.inField field fault).message =
        field ++ (": decode error: " ++ fault.message) := by
      rw [← String.append_assoc]
      rfl
    refine ⟨field, by simp [conversionWords, hfield], ?_⟩
    rw [hmessage, firstLetters_append (hlong field hfield)]

theorem DecodeFault.OfDecoding.exists_word {f : DecodeFault} (h : f.OfDecoding) :
    ∃ w ∈ decodingWords, firstLetters f.message = firstLetters w := by
  cases h with
  | emptyTraceId => exact ⟨"span has an empty", by simp [decodingWords], by decide⟩
  | emptySpanId => exact ⟨"span has an empty", by simp [decodingWords], by decide⟩
  | timestampOutOfRange nanos =>
    exact ⟨"timestamp out of range: ", by simp [decodingWords], firstLetters_append (by decide) _⟩

/-- **The message tells the stage** at which a record was dropped. -/
theorem DecodeFault.message_ne_of_stages {f g : DecodeFault} (hf : f.OfConversion)
    (hg : g.OfDecoding) : (Error.decode f).message ≠ (Error.decode g).message := by
  have hwords : ∀ v ∈ conversionWords, ∀ w ∈ decodingWords, firstLetters v ≠ firstLetters w := by
    decide
  obtain ⟨v, hv, hfv⟩ := hf.exists_word
  obtain ⟨w, hw, hgw⟩ := hg.exists_word
  intro h
  have hmessage : f.message = g.message := String.append_right_inj _ |>.1 h
  exact hwords v hv w hw (hfv.symm.trans ((congrArg firstLetters hmessage).trans hgw))

/-! ## Conversion -/

namespace Otlp.FromJson

open Json.Decoder (record_induction mem_list of_optional_eq_some)

/-- Whether the attributes of an item fail to convert for one reason only. -/
def AttributesSound (fs : List KeyValueForm) : Prop := ∀ f ∈ fs, OnlyBytesFail f.convert

theorem attributesSound_nil : AttributesSound [] := List.forall_mem_nil _

/-- Bytes that do not convert are a fault of conversion. -/
theorem onlyFails_of_onlyBytesFail {α : Type} {x : Except DecodeFault α} (h : OnlyBytesFail x) :
    OnlyFails DecodeFault.OfConversion x := by
  intro e he
  obtain ⟨b, rfl⟩ := h e he
  exact .invalidBytes b

/-- Attributes that were read are sound. -/
theorem attributesSound_of_list {levels : Nat} {v : Json} {fs : List KeyValueForm}
    (h : Json.Decoder.list keyValue levels v = .ok fs) : AttributesSound fs := by
  intro f hf
  obtain ⟨levels', v', hread⟩ := mem_list h f hf
  exact keyValue_onlyBytesFail hread

theorem convertAll_fails {fs : List KeyValueForm} (h : AttributesSound fs) :
    OnlyFails DecodeFault.OfConversion (convertAll fs) :=
  onlyFails_of_onlyBytesFail (onlyBytesFail_mapM h)

/-- A number of an enumeration fails with a fault of conversion only. -/
theorem resolve_fails (field : String) (names : List (String × Int32)) (f : EnumForm) :
    OnlyFails DecodeFault.OfConversion (f.resolve field names) := by
  intro e he
  rw [EnumForm.resolve.eq_def] at he
  split at he
  next => cases he
  next s =>
    split at he
    next => cases he
    next => exact Except.error.inj he ▸ .unknownValue field s

theorem identifier_fails {field : String} (hfield : field ∈ identifierFields) (digits : String) :
    OnlyFails DecodeFault.OfConversion (identifier field digits) := by
  intro e he
  rw [identifier] at he
  cases hdecode : Identifier.decode digits with
  | ok bytes =>
    rw [hdecode] at he
    cases he
  | error fault =>
    rw [hdecode] at he
    exact Except.error.inj he ▸ .inField hfield fault

/-- An item that is read as something sound fails to convert for such a reason. -/
theorem item_fails {α β : Type} {form : Json.Decoder α} {convert : α → Except DecodeFault β}
    (hform : ∀ levels v a, form levels v = .ok a → OnlyFails DecodeFault.OfConversion (convert a))
    (v : Json) : OnlyFails DecodeFault.OfConversion (item form convert v) := by
  intro e he
  rw [item] at he
  split at he
  next a ha => exact hform _ _ a ha e he
  next fault _ => exact Except.error.inj he ▸ .malformedRecord fault

/-- A span is not converted for one of these reasons. -/
theorem span_fails (v : Json) : OnlyFails DecodeFault.OfConversion (span v) := by
  refine item_fails (fun levels v s hs => ?_) v
  have hattributes : AttributesSound s.attributes := by
    refine record_induction (fun s : SpanForm => AttributesSound s.attributes)
      attributesSound_nil ?_ hs
    intro levels s name v s' hs hset
    -- only the attributes of a span could fail later; the other members are checked while it is
    -- converted
    split at hset
    case h_9 =>
      obtain ⟨fs, hfs, hset⟩ := bind_eq_ok hset
      exact Except.ok.inj hset ▸ attributesSound_of_list hfs
    all_goals
      obtain ⟨_, -, hset⟩ := bind_eq_ok hset
      exact Except.ok.inj hset ▸ hs
  have hstatus (p : EnumForm × String) : OnlyFails DecodeFault.OfConversion (do
      return { message := p.2, code := ← p.1.resolve "status code" statusCodes : Status }) := by
    simp only [onlyFails_bind, onlyFails_pure, resolve_fails, implies_true, and_true]
  have hid (field : String) (hfield : field ∈ identifierFields) (digits : String) :
      OnlyFails DecodeFault.OfConversion (identifier field digits) :=
    identifier_fails hfield digits
  unfold SpanForm.convert
  simp only [onlyFails_bind, onlyFails_pure, onlyFails_option_mapM, hstatus, resolve_fails,
    convertAll_fails hattributes, implies_true, and_true, true_and]
  intro _ _
  refine ⟨hid _ (by simp [identifierFields]) _, fun _ _ => ⟨hid _ (by simp [identifierFields]) _,
    fun _ _ => hid _ (by simp [identifierFields]) _⟩⟩

/-- Neither is a log record. -/
theorem logRecord_fails (v : Json) : OnlyFails DecodeFault.OfConversion (logRecord v) := by
  refine item_fails (fun levels v r hr => ?_) v
  have hsound : AttributesSound r.attributes ∧ OnlyBytesFail r.body := by
    refine record_induction
      (fun r : LogRecordForm => AttributesSound r.attributes ∧ OnlyBytesFail r.body)
      ⟨attributesSound_nil, onlyBytesFail_ok _⟩ ?_ hr
    intro levels r name v r' hr hset
    -- the body and the attributes of a log record could fail later
    split at hset
    case h_5 =>
      obtain ⟨o, ho, hset⟩ := bind_eq_ok hset
      rw [← Except.ok.inj hset]
      refine ⟨hr.1, ?_⟩
      cases o with
      | none => exact onlyBytesFail_ok _
      | some outcome =>
        have hread : anyValue levels v = .ok outcome := of_optional_eq_some ho
        exact anyValueWith_readsOnlyBytesFail _ _ _ _ hread
    case h_6 =>
      obtain ⟨fs, hfs, hset⟩ := bind_eq_ok hset
      exact Except.ok.inj hset ▸ ⟨attributesSound_of_list hfs, hr.2⟩
    all_goals
      obtain ⟨_, -, hset⟩ := bind_eq_ok hset
      exact Except.ok.inj hset ▸ hr
  have hbody := onlyFails_of_onlyBytesFail hsound.2
  have hid (field : String) (hfield : field ∈ identifierFields) (digits : String) :
      OnlyFails DecodeFault.OfConversion (identifier field digits) :=
    identifier_fails hfield digits
  unfold LogRecordForm.convert
  simp only [onlyFails_bind, onlyFails_pure, resolve_fails, hbody, convertAll_fails hsound.1,
    implies_true, and_true, true_and]
  intro _ _ _ _ _ _
  exact ⟨hid _ (by simp [identifierFields]) _, fun _ _ => hid _ (by simp [identifierFields]) _⟩

end Otlp.FromJson

/-! ## Decoding -/

namespace Otlp

open Time (Instant)

/-- Whether an error is one of decoding a span or a log record. -/
def IsDecoding (e : Error) : Prop := ∃ f : DecodeFault, f.OfDecoding ∧ e = .decode f

/-- A time fails with a fault of decoding only. -/
theorem ofWire_fails (nanos : UInt64) : OnlyFails IsDecoding (Instant.ofWire nanos) := by
  unfold Instant.ofWire
  split
  · exact onlyFails_ok _
  · exact (onlyFails_error _).2 ⟨_, .timestampOutOfRange _, rfl⟩

/-- A span is not decoded for one of these reasons. -/
theorem decodeSpan_fails (service : String) (s : Span) :
    OnlyFails IsDecoding (decodeSpan service s) := by
  unfold decodeSpan
  split
  next =>
    split
    next => simp only [onlyFails_bind, onlyFails_pure, ofWire_fails, implies_true, and_true]
    next => exact (onlyFails_throw _).2 ⟨_, .emptySpanId, rfl⟩
  next => exact (onlyFails_throw _).2 ⟨_, .emptyTraceId, rfl⟩

/-- Neither is a log record. -/
theorem decodeLog_fails (service : String) (received : Instant) (r : LogRecord) :
    OnlyFails IsDecoding (decodeLog service received r) := by
  have htime : OnlyFails IsDecoding (logTime r received) := by
    unfold logTime
    split
    · exact ofWire_fails _
    · split
      · exact ofWire_fails _
      · exact onlyFails_ok _
  unfold decodeLog
  simp only [onlyFails_bind, onlyFails_pure, htime, implies_true, and_true]

end Otlp

end Telemetry
