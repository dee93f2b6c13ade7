import Telemetry.Otlp.Decode
import Telemetry.Otlp.FromJson
import Telemetry.Proofs.Json.Passage
import Telemetry.Proofs.Text.Hex

/-!
Identifiers of spans and log records on their way from a JSON document into the store.

An identifier is bytes on the wire, digits of either case in a document, and digits in lower case in
the store. A member that is one is an `IdentifierMember`: it is read into a place of its own, which
the other members do not touch (`digits_of_record`), converted to the bytes of its digits, and
stored as the digits of its bytes. So the way through a document ends where the way through the wire
format does, for all members of spans and of log records alike (`KeepsIdentifiers`).
-/

set_option autoImplicit false

namespace Telemetry.Otlp

open Fallible
open Json.Decoder (IsMember record_through text)
open Time (Instant)

/-! ## Members -/

/-- A member that is an identifier: its name, its place in an item that has been read, and where it
is in the message and in the record. -/
structure IdentifierMember (Form Message Row : Type) where
  name : String
  digits : Form → String
  put : String → Form → Form
  digits_put : ∀ s f, digits (put s f) = s
  bytes : Message → List UInt8
  stored : Row → Option String

/-- The identifiers of a span. -/
def spanIdentifiers : List (IdentifierMember FromJson.SpanForm Span Telemetry.Span) :=
  [⟨"traceId", (·.traceId), fun s f => { f with traceId := s }, fun _ _ => rfl, (·.traceId),
      fun r => some r.traceId⟩,
    ⟨"spanId", (·.spanId), fun s f => { f with spanId := s }, fun _ _ => rfl, (·.spanId),
      fun r => some r.spanId⟩,
    ⟨"parentSpanId", (·.parentSpanId), fun s f => { f with parentSpanId := s }, fun _ _ => rfl,
      (·.parentSpanId), (·.parentSpanId)⟩]

/-- The identifiers of a log record. -/
def logIdentifiers : List (IdentifierMember FromJson.LogRecordForm LogRecord Telemetry.LogRecord) :=
  [⟨"traceId", (·.traceId), fun s f => { f with traceId := s }, fun _ _ => rfl, (·.traceId),
      (·.traceId)⟩,
    ⟨"spanId", (·.spanId), fun s f => { f with spanId := s }, fun _ _ => rfl, (·.spanId),
      (·.spanId)⟩]

namespace FromJson

/-- What is put into its place in the end might as well be put there at the beginning. -/
theorem bind_pure_eq_map {ε α β : Type} {x : Except ε α} {f f' : α → β} {g : β → β}
    (h : ∀ a, f' a = g (f a)) : (do return f' (← x)) = Except.map g (do return f (← x)) := by
  cases x with
  | error e => rfl
  | ok a => exact congrArg Except.ok (h a)

/-- A text that is a member of a record is found at its place, whatever else the record has. -/
theorem digits_of_record {Form Message Row : Type} {m : IdentifierMember Form Message Row}
    {names : List String} {start : Form}
    {set : Nat → Form → String → Json → Except Json.Fault Form}
    (h : IsMember names set m.name text m.put) {frame : Json.Frame}
    (hframe : frame.Takes (.member names m.name)) {s : String} {levels : Nat} {form : Form}
    (hform : Json.Decoder.record names 0 start set (levels + 1) (frame.fill (.string s)) =
      .ok form) : m.digits form = s := by
  obtain ⟨f, s', ⟨a, rfl⟩, hs, rfl, -⟩ := (record_through h 0 start levels hframe).exchange hform
  obtain rfl : s = s' := Except.ok.inj hs
  exact m.digits_put s a

/-- The digits of an identifier in a span are the text of its member. -/
theorem digits_of_spanForm {frame : Json.Frame} {s : String} {levels : Nat} {form : SpanForm} :
    ∀ m ∈ spanIdentifiers, frame.Takes (.member spanNames m.name) →
      spanForm (levels + 1) (frame.fill (.string s)) = .ok form → m.digits form = s := by
  intro m hm hframe hform
  refine digits_of_record ⟨by decide, ?_, ?_, ?_⟩ hframe hform
  · simp only [spanIdentifiers, List.mem_cons, List.not_mem_nil, or_false] at hm
    rcases hm with rfl | rfl | rfl <;> decide
  · intro levels f v
    simp only [spanIdentifiers, List.mem_cons, List.not_mem_nil, or_false] at hm
    rcases hm with rfl | rfl | rfl <;> rfl
  · intro levels f b n v hn hne
    simp only [spanIdentifiers, List.mem_cons, List.not_mem_nil, or_false] at hm
    simp only [spanNames, List.mem_cons, List.not_mem_nil, or_false] at hn
    rcases hm with rfl | rfl | rfl <;>
      rcases hn with rfl | rfl | rfl | rfl | rfl | rfl | rfl | rfl | rfl | rfl | rfl <;>
        first | exact absurd rfl hne | exact bind_pure_eq_map fun _ => rfl

/-- The digits of an identifier in a log record are the text of its member. -/
theorem digits_of_logRecordForm {frame : Json.Frame} {s : String} {levels : Nat}
    {form : LogRecordForm} :
    ∀ m ∈ logIdentifiers, frame.Takes (.member logRecordNames m.name) →
      logRecordForm (levels + 1) (frame.fill (.string s)) = .ok form → m.digits form = s := by
  intro m hm hframe hform
  refine digits_of_record ⟨by decide, ?_, ?_, ?_⟩ hframe hform
  · simp only [logIdentifiers, List.mem_cons, List.not_mem_nil, or_false] at hm
    rcases hm with rfl | rfl <;> decide
  · intro levels f v
    simp only [logIdentifiers, List.mem_cons, List.not_mem_nil, or_false] at hm
    rcases hm with rfl | rfl <;> rfl
  · intro levels f b n v hn hne
    simp only [logIdentifiers, List.mem_cons, List.not_mem_nil, or_false] at hm
    simp only [logRecordNames, List.mem_cons, List.not_mem_nil, or_false] at hn
    rcases hm with rfl | rfl <;>
      rcases hn with rfl | rfl | rfl | rfl | rfl | rfl | rfl | rfl | rfl <;>
        first | exact absurd rfl hne | exact bind_pure_eq_map fun _ => rfl

/-! ## Conversion -/

/-- An identifier of a record is decoded as any identifier, only with another error. -/
theorem decode_of_identifier {field digits : String} {bytes : List UInt8}
    (h : identifier field digits = .ok bytes) : Identifier.decode digits = .ok bytes :=
  mapError_eq_ok h

/-- A span that converts has the bytes that its digits decode to. -/
theorem SpanForm.convert_identifiers {form : SpanForm} {s : Span} (h : form.convert = .ok s) :
    ∀ m ∈ spanIdentifiers, Identifier.decode (m.digits form) = .ok (m.bytes s) := by
  obtain ⟨_, -, h⟩ := bind_eq_ok h
  obtain ⟨_, htrace, h⟩ := bind_eq_ok h
  obtain ⟨_, hspan, h⟩ := bind_eq_ok h
  obtain ⟨_, hparent, h⟩ := bind_eq_ok h
  obtain ⟨_, -, h⟩ := bind_eq_ok h
  obtain ⟨_, -, h⟩ := bind_eq_ok h
  obtain rfl := Except.ok.inj h
  exact List.forall_mem_cons.2 ⟨decode_of_identifier htrace, List.forall_mem_cons.2
    ⟨decode_of_identifier hspan, List.forall_mem_singleton.2 (decode_of_identifier hparent)⟩⟩

/-- A log record that converts has the bytes that its digits decode to. -/
theorem LogRecordForm.convert_identifiers {form : LogRecordForm} {r : LogRecord}
    (h : form.convert = .ok r) :
    ∀ m ∈ logIdentifiers, Identifier.decode (m.digits form) = .ok (m.bytes r) := by
  obtain ⟨_, -, h⟩ := bind_eq_ok h
  obtain ⟨_, -, h⟩ := bind_eq_ok h
  obtain ⟨_, -, h⟩ := bind_eq_ok h
  obtain ⟨_, htrace, h⟩ := bind_eq_ok h
  obtain ⟨_, hspan, h⟩ := bind_eq_ok h
  obtain rfl := Except.ok.inj h
  exact List.forall_mem_cons.2
    ⟨decode_of_identifier htrace, List.forall_mem_singleton.2 (decode_of_identifier hspan)⟩

/-- An item that was taken was read and then converted. -/
theorem of_item_eq_ok {α β : Type} {form : Json.Decoder α} {convert : α → Except DecodeFault β}
    {v : Json} {b : β} (h : item form convert v = .ok b) :
    ∃ a, form Json.maxLevels v = .ok a ∧ convert a = .ok b := by
  rw [item] at h
  split at h
  next a ha => exact ⟨a, ha, h⟩
  next => cases h

end FromJson

/-! ## Storage -/

/-- A span is stored with its identifiers in digits of lower case. -/
theorem stored_of_decodeSpan {service : String} {s : Span} {r : Telemetry.Span}
    (h : decodeSpan service s = .ok r) :
    ∀ m ∈ spanIdentifiers, m.stored r = Identifier.encode? (m.bytes s) := by
  rw [decodeSpan] at h
  split at h
  next traceId htrace =>
    split at h
    next spanId hspan =>
      obtain ⟨_, -, h⟩ := bind_eq_ok h
      obtain rfl := Except.ok.inj h
      exact List.forall_mem_cons.2
        ⟨htrace.symm, List.forall_mem_cons.2 ⟨hspan.symm, List.forall_mem_singleton.2 rfl⟩⟩
    next => cases h
  next => cases h

/-- A log record is stored with its identifiers in digits of lower case. -/
theorem stored_of_decodeLog {service : String} {received : Instant} {r : LogRecord}
    {l : Telemetry.LogRecord} (h : decodeLog service received r = .ok l) :
    ∀ m ∈ logIdentifiers, m.stored l = Identifier.encode? (m.bytes r) := by
  obtain ⟨_, -, h⟩ := bind_eq_ok h
  obtain rfl := Except.ok.inj h
  exact List.forall_mem_cons.2 ⟨rfl, List.forall_mem_singleton.2 rfl⟩

/-- Whether a text that is an identifier in a document is read as the bytes that it denotes, and
these bytes are stored as the text in lower case, whichever message has them. -/
def KeepsIdentifiers {Form Message Row : Type}
    (members : List (IdentifierMember Form Message Row)) (names : List String)
    (read : Json → Except DecodeFault Message) (BecomesRow : Message → Row → Prop) : Prop :=
  ∀ m ∈ members, ∀ frame : Json.Frame, frame.Takes (.member names m.name) →
    ∀ (text : String) (message : Message), read (frame.fill (.string text)) = .ok message →
      Identifier.decode text = .ok (m.bytes message) ∧
        ∀ (other : Message) (row : Row), m.bytes other = m.bytes message →
          BecomesRow other row → m.stored row = Identifier.stored text

/-- All three identifiers of a span are kept, on the whole way from its text to the store. -/
theorem span_keepsIdentifiers :
    KeepsIdentifiers spanIdentifiers FromJson.spanNames FromJson.span
      fun s r => ∃ service, decodeSpan service s = .ok r := by
  intro m hm frame hframe text s hread
  obtain ⟨form, hform, hconvert⟩ := FromJson.of_item_eq_ok hread
  have hdecode := FromJson.SpanForm.convert_identifiers hconvert m hm
  rw [FromJson.digits_of_spanForm m hm hframe hform] at hdecode
  refine ⟨hdecode, fun other r hbytes ⟨service, hr⟩ => ?_⟩
  rw [stored_of_decodeSpan hr m hm, hbytes, Identifier.encode?_of_decode hdecode]

/-- Both identifiers of a log record are kept as well. -/
theorem logRecord_keepsIdentifiers :
    KeepsIdentifiers logIdentifiers FromJson.logRecordNames FromJson.logRecord
      fun r l => ∃ service received, decodeLog service received r = .ok l := by
  intro m hm frame hframe text r hread
  obtain ⟨form, hform, hconvert⟩ := FromJson.of_item_eq_ok hread
  have hdecode := FromJson.LogRecordForm.convert_identifiers hconvert m hm
  rw [FromJson.digits_of_logRecordForm m hm hframe hform] at hdecode
  refine ⟨hdecode, fun other l hbytes ⟨service, received, hl⟩ => ?_⟩
  rw [stored_of_decodeLog hl m hm, hbytes, Identifier.encode?_of_decode hdecode]

/-- **Bytes and digits of identifiers determine each other.** What is written is read, in any case;
nothing is read but digits that are even in number; what is read is written in lower case; and so an
identifier in a document is stored like its bytes. -/
theorem identifiers_exact :
    (∀ bytes : List UInt8, bytes ≠ [] → ∃ text, Identifier.encode? bytes = some text ∧
      ∀ text', text'.toLower = text.toLower → Identifier.decode text' = .ok bytes) ∧
    (∀ text, (∃ bytes, Identifier.decode text = .ok bytes) ↔
      (Text.Utf8.encode text.toList).length % 2 = 0 ∧
        ∀ b ∈ Text.Utf8.encode text.toList, Text.Hex.isDigitByte b = true) ∧
    (∀ text bytes, Identifier.decode text = .ok bytes →
      Identifier.encode? bytes = Identifier.stored text) ∧
    (KeepsIdentifiers spanIdentifiers FromJson.spanNames FromJson.span
      fun s r => ∃ service, decodeSpan service s = .ok r) ∧
    KeepsIdentifiers logIdentifiers FromJson.logRecordNames FromJson.logRecord
      fun r l => ∃ service received, decodeLog service received r = .ok l := by
  refine ⟨fun bytes hne => ?_, fun _ => Identifier.exists_decode_iff,
    fun _ _ => Identifier.encode?_of_decode, span_keepsIdentifiers, logRecord_keepsIdentifiers⟩
  have hwritten : Identifier.encode? bytes = some (String.ofList (Text.Hex.encode bytes)) := by
    rw [Identifier.encode?, if_neg (by rwa [List.isEmpty_iff])]
  exact ⟨_, hwritten, fun _ hcase => Identifier.decode_of_encode? hwritten hcase⟩

/-- A span with an identifier in both cases. -/
def mixedCase : Json := .object [("spanId", .string "0a"), ("traceId", .string "4bF9")]

/-- The span that it is read as. -/
def mixedCaseSpan : Span := { traceId := [0x4B, 0xF9], spanId := [0x0A] }

/-- The theorem for a span whose trace is written in both cases: it is stored in lower case. -/
theorem identifiers_exact_of_mixedCase :
    FromJson.span mixedCase = .ok mixedCaseSpan ∧
    Identifier.decode "4bF9" = .ok [0x4B, 0xF9] ∧
    ∃ r, decodeSpan "api" mixedCaseSpan = .ok r ∧ r.traceId = "4bf9" := by
  obtain ⟨hwritten, -, -, hspans, -⟩ := identifiers_exact
  have hread : FromJson.span mixedCase = .ok mixedCaseSpan := by rfl
  have hrow : ∃ r, decodeSpan "api" mixedCaseSpan = .ok r := ⟨_, rfl⟩
  have hmixed : "4bF9".toLower = "4bf9" := by
    rw [← String.toList_inj, Identifier.toList_toLower]
    rfl
  have hlower : "4bf9".toLower = "4bf9" := by
    rw [← String.toList_inj, Identifier.toList_toLower]
    rfl
  obtain ⟨text, htext, hcases⟩ := hwritten [0x4B, 0xF9] (by decide)
  obtain rfl : "4bf9" = text := Option.some.inj htext
  obtain ⟨r, hr⟩ := hrow
  obtain ⟨-, hstored⟩ := hspans _ List.mem_cons_self
    (.member [("spanId", .string "0a")] "traceId" []) rfl "4bF9" mixedCaseSpan hread
  have htrace : some r.traceId = Identifier.stored "4bF9" :=
    hstored mixedCaseSpan r rfl ⟨"api", hr⟩
  rw [Identifier.stored, hmixed] at htrace
  exact ⟨hread, hcases "4bF9" (hmixed.trans hlower.symm), r, hr, Option.some.inj htrace⟩

end Telemetry.Otlp
