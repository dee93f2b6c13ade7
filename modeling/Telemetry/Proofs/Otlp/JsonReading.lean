import Telemetry.Proofs.Otlp.Rendering
import Telemetry.Proofs.Text.Base64

/-!
Each message is read back from whatever looks like it in JSON.

For each record there is a condition on what has been read of it, name by name: the texts,
numbers and lists that were read stand for those of the message. A member that is left out meets its
condition from the start, and each member that is there meets it once it is set, so it holds of the
whole record in the end. From such a record the message is converted without a fault.
-/

set_option autoImplicit false

namespace Telemetry.Otlp.FromJson

open Json (Shape Field Fits)
open Json.Decoder

variable {levels : Nat}

/-! ## Scalars -/

/-- Whether a form resolves to a number, whatever field it is in. -/
def EnumForm.Denotes (names : List (String × Int32)) (n : Int32) (form : EnumForm) : Prop :=
  ∀ field, form.resolve field names = .ok n

/-- A number of an enumeration is read from either of its forms, the number or its name. -/
theorem enumForm_reads (names : List (String × Int32)) (n : Int32) :
    Reads levels enumForm (enumShape names n) (EnumForm.Denotes names n) := by
  intro v hv
  cases hv.renders with
  | scalar _ h =>
    obtain rfl | ⟨s, rfl, hs⟩ := h
    · refine ⟨.number n, ?_, fun _ => rfl⟩
      rw [enumForm, signed32_eq_ok]
      · rfl
      · intro s hs
        cases hs
    · refine ⟨.name s, rfl, fun field => ?_⟩
      rw [EnumForm.resolve, hs]

/-- Whether a text is the digits of an identifier. -/
def IsHexText (bytes : List UInt8) (digits : String) : Prop := Text.Hex.IsHex digits.toList bytes

theorem identifier_of_isHexText {field digits : String} {bytes : List UInt8}
    (h : IsHexText bytes digits) : identifier field digits = .ok bytes := by
  rw [identifier, Identifier.decode_of_isHex h]
  rfl

/-! ## Attributes -/

/-- Whether attributes that have been read convert to these. -/
def Converts (kvs : List KeyValue) (fs : List KeyValueForm) : Prop :=
  List.Forall₂ (fun kv f => f.convert = .ok kv) kvs fs

theorem Converts.convertAll {kvs : List KeyValue} {fs : List KeyValueForm}
    (h : Converts kvs fs) : convertAll fs = .ok kvs :=
  Fallible.mapM_eq_ok_iff.2 h.flip

/-- Attributes that convert are all kept. -/
theorem Converts.keepConvertible {kvs : List KeyValue} {fs : List KeyValueForm}
    (h : Converts kvs fs) : keepConvertible fs = (kvs, 0) := by
  have hkept : fs.filterMap (fun f => f.convert.toOption) = kvs := by
    induction h with
    | nil => rfl
    | cons hf _ ih =>
      rw [List.filterMap_cons, hf, ih]
      rfl
  have hlength : fs.length = kvs.length := (List.Forall₂.length_eq h).symm
  rw [FromJson.keepConvertible, hkept, hlength, Nat.sub_self]

/-- What the members of an attribute mean. -/
def KeyValueMeans (kv : KeyValue) (name : String)
    (p : Option String × Except DecodeFault AnyValue) : Prop :=
  if name = "key" then p.1 = some kv.1 else p.2 = .ok kv.2

/-- A key with its value is read if the value is, one level deeper. -/
theorem keyValueWith_reads {value : Json.Decoder (Except DecodeFault AnyValue)} (kv : KeyValue)
    (hvalue : ∀ inner < levels, Reads inner value kv.2.shape (· = .ok kv.2)) :
    Reads levels (keyValueWith value) (keyValueShape kv) fun f => f.convert = .ok kv := by
  unfold keyValueWith keyValueShape
  refine Reads.andThen (record_reads (KeyValueMeans kv) ?_ ?_) ?_
  · exact List.Subset.refl _
  · rw [List.forall_mem_cons, List.forall_mem_cons]
    refine ⟨⟨False.elim, fun _ _ _ hv _ => ?_⟩, ⟨fun h => ?_, fun inner hinner _ hv _ => ?_⟩,
      List.forall_mem_nil _⟩
    · exact (text_reads _).bind hv fun b hb => ⟨congrArg some hb, by simp [KeyValueMeans]⟩
    · exact congrArg Except.ok h.symm
    · refine (optional_reads_eq (hvalue inner hinner)).bind hv fun b hb =>
        ⟨?_, by simp [KeyValueMeans]⟩
      rw [hb]
      rfl
  · intro p hp
    -- the key was read, so the attribute is complete
    rw [List.forall_mem_cons, List.forall_mem_cons] at hp
    obtain ⟨hkey, hvalue, -⟩ := hp
    obtain ⟨key, outcome⟩ := p
    obtain rfl : key = some kv.1 := hkey
    obtain rfl : outcome = .ok kv.2 := hvalue
    exact ⟨⟨kv.1, .ok kv.2⟩, rfl, rfl⟩

/-- The only member of a record of values. -/
theorem valuesOf_reads {α β : Type} {item : Json.Decoder β} {shape : α → Shape}
    {good : α → β → Prop}
    (hitem : ∀ inner, inner + 1 < levels → ∀ a, Reads inner item (shape a) (good a))
    (as : List α) :
    Reads levels (valuesOf item) (.object ["values"] [listField "values" shape as])
      (List.Forall₂ good as) := by
  refine record_single_reads _ List.mem_cons_self (fun h => ?_) fun inner hinner => ?_
  · rw [show as = [] from h]
    exact .nil
  · exact list_reads (fun inner' hinner' => hitem inner' (by omega)) as

/-- Bytes written with padding are decoded to themselves. -/
theorem decode_base64 {bytes : List UInt8} {s : String}
    (h : Text.Utf8.encode s.toList = Text.Base64.encode bytes) :
    ({ bytes := some s } : AnyValueForm).convert = .ok (.bytes bytes) := by
  simp only [AnyValueForm.convert, h, Text.Base64.decode_encode]

/-- An attribute value is read where the fuel is enough for the levels that are left. -/
theorem anyValueWith_reads (fuel : Nat) (a : AnyValue) (h : levels < fuel) :
    Reads levels (anyValueWith fuel) a.shape (· = .ok a) := by
  induction fuel generalizing levels a with
  | zero => cases h
  | succ fuel ih =>
    -- the values inside are deeper by two levels at least, so there is fuel enough for them
    have hinside : ∀ inner, inner + 1 < levels → ∀ b : AnyValue,
        Reads inner (anyValueWith fuel) b.shape (· = .ok b) :=
      fun inner hinner b => ih b (by omega)
    have hconvert : ∀ f : AnyValueForm, f.convert = .ok a →
        ∃ outcome, (pure f.convert : Except Json.Fault _) = .ok outcome ∧ outcome = .ok a :=
      fun f hf => ⟨f.convert, rfl, hf⟩
    unfold anyValueWith
    -- one case for each kind of value, whose only member has its name; arrays and lists of keys
    -- use the values inside
    cases a with
    | empty =>
      refine Reads.andThen (record_empty_reads _ _ _ _) fun f hf => hconvert f ?_
      rw [hf]
      rfl
    | string s =>
      have hname : "stringValue" ∈ anyValueNames := by decide
      refine Reads.andThen (record_single_reads _ hname False.elim fun _ _ v hv => ?_) hconvert
      refine (optional_reads_eq (text_reads s)).bind hv fun o ho => ?_
      rw [ho]
      rfl
    | bool b =>
      have hname : "boolValue" ∈ anyValueNames := by decide
      refine Reads.andThen (record_single_reads _ hname False.elim fun _ _ v hv => ?_) hconvert
      refine (optional_reads_eq (bool_reads b)).bind hv fun o ho => ?_
      rw [ho]
      rfl
    | int n =>
      have hname : "intValue" ∈ anyValueNames := by decide
      refine Reads.andThen (record_single_reads _ hname False.elim fun _ _ v hv => ?_) hconvert
      refine (optional_reads_eq (flexibleSigned64_reads n)).bind hv fun o ho => ?_
      rw [ho]
      rfl
    | double x =>
      have hname : "doubleValue" ∈ anyValueNames := by decide
      refine Reads.andThen (record_single_reads _ hname False.elim fun _ _ v hv => ?_) hconvert
      refine (optional_reads_eq (double_reads x)).bind hv fun o ho => ?_
      rw [ho]
      rfl
    | array values =>
      have hname : "arrayValue" ∈ anyValueNames := by decide
      refine Reads.andThen (record_single_reads _ hname False.elim ?_) hconvert
      intro inner hinner v hv
      rw [itemShapes_eq_map] at hv
      have hvalues : Reads inner (valuesOf (anyValueWith fuel)) _ _ :=
        valuesOf_reads (fun inner' h' => hinside inner' (by omega)) values
      refine (optional_reads hvalues).bind hv fun o ho => ?_
      obtain ⟨outcomes, rfl, houtcomes⟩ := ho
      have hall : outcomes.mapM id = .ok values := Fallible.mapM_eq_ok_iff.2 houtcomes.flip
      exact congrArg (Except.map AnyValue.array) hall
    | kvlist entries =>
      have hname : "kvlistValue" ∈ anyValueNames := by decide
      refine Reads.andThen (record_single_reads _ hname False.elim ?_) hconvert
      intro inner hinner v hv
      rw [entryShapes_eq_map] at hv
      have hentries : Reads inner (valuesOf (keyValueWith (anyValueWith fuel))) _ _ :=
        valuesOf_reads (fun inner' h' kv =>
          keyValueWith_reads kv fun inner'' h'' => hinside inner'' (by omega) kv.2) entries
      refine (optional_reads hentries).bind hv fun o ho => ?_
      obtain ⟨forms, rfl, hforms⟩ := ho
      exact congrArg (Except.map AnyValue.kvlist) (Converts.convertAll hforms)
    | bytes bs =>
      have hname : "bytesValue" ∈ anyValueNames := by decide
      refine Reads.andThen (record_single_reads _ hname False.elim ?_) hconvert
      intro inner _ v hv
      refine (optional_reads (textOf_reads _)).bind hv fun o ho => ?_
      obtain ⟨s, rfl, hs⟩ := ho
      exact decode_base64 hs

/-- A value of an attribute, however deep, is read as itself. -/
theorem anyValue_reads (a : AnyValue) : Reads levels anyValue a.shape (· = .ok a) := by
  intro v hv
  obtain ⟨outcome, houtcome, heq⟩ :=
    anyValueWith_reads (levels + 1) a (Nat.lt_succ_self levels) v hv
  rw [anyValue]
  exact ⟨outcome, houtcome, heq⟩

theorem keyValue_reads (kv : KeyValue) :
    Reads levels keyValue (keyValueShape kv) fun f => f.convert = .ok kv :=
  keyValueWith_reads kv fun _ _ => anyValue_reads kv.2

theorem attributes_reads (kvs : List KeyValue) :
    Reads levels (list keyValue) (.array (kvs.map keyValueShape)) (Converts kvs) :=
  list_reads (fun _ _ => keyValue_reads) kvs

/-! ## Fields -/

/-- What stands for a message that may be left out: nothing stands for an empty one. -/
def StandsFor {α β : Type} [Inhabited α] (good : α → β → Prop) (a : α) : Option β → Prop
  | none => a = default
  | some b => good a b

/-- A message that may be left out is read as itself, or is the default. -/
theorem message_reads {α β : Type} [Inhabited α] {d : Json.Decoder β} {shape : α → Shape}
    {good : α → β → Prop} (h : ∀ a, Reads levels d (shape a) (good a)) (a : α) :
    Reads levels (optional d) (shape a) (StandsFor good a) := by
  intro v hv
  obtain ⟨-, ho, b, rfl, hgood⟩ := optional_reads (h a) v hv
  exact ⟨some b, ho, hgood⟩

theorem denotes_of_eq_zero {names : List (String × Int32)} {n : Int32} (h : n = 0) :
    EnumForm.Denotes names n (.number 0) := by
  rw [h]
  exact fun _ => rfl

theorem isHexText_of_eq_nil {bytes : List UInt8} (h : bytes = []) : IsHexText bytes "" := by
  rw [h, IsHexText, Text.Hex.IsHex]
  rfl

/-- A value that was there and converts. -/
theorem getD_of_body {a : AnyValue} {o : Option (Except DecodeFault AnyValue)}
    (h : o = some (.ok a)) : o.getD (.ok .empty) = .ok a := by
  rw [h]
  rfl

theorem converts_of_eq_nil {kvs : List KeyValue} (h : kvs = []) : Converts kvs [] := by
  rw [h]
  exact .nil

/-! ## Spans -/

/-- What the members of a status mean. -/
def StatusMeans (s : Status) : String → EnumForm × String → Prop
  | "code", p => p.1.Denotes statusCodes s.code
  | "message", p => p.2 = s.message
  | _, _ => True

/-- What a status that has been read stands for. -/
def StatusGood (s : Status) (p : EnumForm × String) : Prop :=
  p.1.Denotes statusCodes s.code ∧ p.2 = s.message

/-- A status is read with its code and its message. -/
theorem status_reads (s : Status) : Reads levels status s.shape (StatusGood s) := by
  refine Reads.imp (record_reads (StatusMeans s) (List.Subset.refl _) ?_) ?_
  · rw [List.forall_mem_cons, List.forall_mem_cons]
    refine ⟨⟨denotes_of_eq_zero, fun _ _ _ hv _ =>
        (enumForm_reads _ _).bind hv fun b hb => ⟨hb, ?_⟩⟩,
      ⟨Eq.symm, fun _ _ _ hv _ => (text_reads _).bind hv fun b hb => ⟨hb, ?_⟩⟩,
      List.forall_mem_nil _⟩
    all_goals
      intro name hname hne hmeans
      simp only [List.mem_cons, List.not_mem_nil, or_false] at hname
      rcases hname with rfl | rfl <;> first | exact hmeans | exact absurd rfl hne
  · intro p hp
    rw [List.forall_mem_cons, List.forall_mem_cons] at hp
    exact ⟨hp.1, hp.2.1⟩

/-- What the members of a span mean. -/
def SpanForm.Means (s : Span) : String → SpanForm → Prop
  | "traceId", f => IsHexText s.traceId f.traceId
  | "spanId", f => IsHexText s.spanId f.spanId
  | "parentSpanId", f => IsHexText s.parentSpanId f.parentSpanId
  | "traceState", f => f.traceState = s.traceState
  | "name", f => f.name = s.name
  | "kind", f => f.kind.Denotes spanKinds s.kind
  | "startTimeUnixNano", f => f.startTime = s.startTime
  | "endTimeUnixNano", f => f.endTime = s.endTime
  | "attributes", f => Converts s.attributes f.attributes
  | "status", f => StandsFor StatusGood (s.status.getD default) f.status
  | "flags", f => f.flags = s.flags
  | _, _ => True

/-- A span is read, and each member that was read means what it does in the span. -/
theorem spanForm_reads (s : Span) :
    Reads levels spanForm s.shape fun f => ∀ g ∈ s.fields, SpanForm.Means s g.1 f := by
  refine record_reads (SpanForm.Means s) (List.Subset.refl _) ?_
  rw [Span.fields]
  repeat rw [List.forall_mem_cons]
  -- one entry for each member: its default, and how it is read
  refine ⟨⟨isHexText_of_eq_nil, fun _ _ _ hv _ => (textOf_reads _).bind hv fun b hb => ⟨hb, ?_⟩⟩,
    ⟨isHexText_of_eq_nil, fun _ _ _ hv _ => (textOf_reads _).bind hv fun b hb => ⟨hb, ?_⟩⟩,
    ⟨isHexText_of_eq_nil, fun _ _ _ hv _ => (textOf_reads _).bind hv fun b hb => ⟨hb, ?_⟩⟩,
    ⟨Eq.symm, fun _ _ _ hv _ => (text_reads _).bind hv fun b hb => ⟨hb, ?_⟩⟩,
    ⟨Eq.symm, fun _ _ _ hv _ => (text_reads _).bind hv fun b hb => ⟨hb, ?_⟩⟩,
    ⟨denotes_of_eq_zero, fun _ _ _ hv _ => (enumForm_reads _ _).bind hv fun b hb => ⟨hb, ?_⟩⟩,
    ⟨Eq.symm, fun _ _ _ hv _ => (flexibleUnsigned64_reads _).bind hv fun b hb => ⟨hb, ?_⟩⟩,
    ⟨Eq.symm, fun _ _ _ hv _ => (flexibleUnsigned64_reads _).bind hv fun b hb => ⟨hb, ?_⟩⟩,
    ⟨converts_of_eq_nil, fun _ _ _ hv _ => (attributes_reads _).bind hv fun b hb => ⟨hb, ?_⟩⟩,
    ⟨id, fun _ _ _ hv _ => (message_reads status_reads _).bind hv fun b hb => ⟨hb, ?_⟩⟩,
    ⟨Eq.symm, fun _ _ _ hv _ => (unsigned32_reads _).bind hv fun b hb => ⟨hb, ?_⟩⟩,
    List.forall_mem_nil _⟩
  -- setting one member leaves what the others mean as it was
  all_goals
    intro name hname hne hmeans
    simp only [spanNames, List.mem_cons, List.not_mem_nil, or_false] at hname
    rcases hname with rfl | rfl | rfl | rfl | rfl | rfl | rfl | rfl | rfl | rfl | rfl <;>
      first | exact hmeans | exact absurd rfl hne

/-- A status is converted to the one it stands for; none is made of none. -/
theorem convert_status {s : Status} {o : Option (EnumForm × String)}
    (h : StandsFor StatusGood s o) :
    ∃ converted : Option Status, (o.mapM fun p => do
        return { message := p.2, code := ← p.1.resolve "status code" statusCodes : Status }) =
      .ok converted ∧ converted.getD default = s := by
  cases o with
  | none => exact ⟨none, rfl, Eq.symm h⟩
  | some p =>
    obtain ⟨hcode, hmessage⟩ := h
    refine ⟨some s, ?_, rfl⟩
    simp only [Option.mapM_some, hcode "status code", hmessage]
    rfl

/-- A span is converted to one that is decoded to the same record. -/
theorem SpanForm.convert_of_means {s : Span} {f : SpanForm}
    (h : ∀ g ∈ s.fields, SpanForm.Means s g.1 f) :
    ∃ s', f.convert = .ok s' ∧ ∀ service, decodeSpan service s' = decodeSpan service s := by
  rw [Span.fields] at h
  repeat rw [List.forall_mem_cons] at h
  obtain ⟨htrace, hspan, hparent, hstate, hname, hkind, hstart, hend, hattributes, hstatus, hflags,
    -⟩ := h
  obtain ⟨converted, hconverted, hsame⟩ := convert_status hstatus
  have hcode : (converted.map (·.code)).getD 0 = (s.status.map (·.code)).getD 0 := by
    have hcodes := congrArg Status.code hsame
    cases converted <;> cases hs : s.status <;> rw [hs] at hcodes <;> exact hcodes
  -- where the status was left out it is absent now, which has the same code
  refine ⟨{ s with status := converted }, ?_, fun service => ?_⟩
  · rw [SpanForm.convert]
    simp only [hconverted, identifier_of_isHexText htrace, identifier_of_isHexText hspan,
      identifier_of_isHexText hparent, show f.traceState = _ from hstate,
      show f.name = _ from hname, hkind "span kind", show f.startTime = _ from hstart,
      show f.endTime = _ from hend, Converts.convertAll hattributes,
      show f.flags = _ from hflags]
    rfl
  · rw [decodeSpan, decodeSpan, hcode]

/-! ## Log records -/

/-- What the members of a log record mean. -/
def LogRecordForm.Means (r : LogRecord) : String → LogRecordForm → Prop
  | "timeUnixNano", f => f.time = r.time
  | "observedTimeUnixNano", f => f.observedTime = r.observedTime
  | "severityNumber", f => f.severityNumber.Denotes severities r.severityNumber
  | "severityText", f => f.severityText = r.severityText
  | "body", f => f.body = .ok r.body
  | "attributes", f => Converts r.attributes f.attributes
  | "flags", f => f.flags = r.flags
  | "traceId", f => IsHexText r.traceId f.traceId
  | "spanId", f => IsHexText r.spanId f.spanId
  | _, _ => True

/-- A log record is read in the same way. -/
theorem logRecordForm_reads (r : LogRecord) :
    Reads levels logRecordForm r.shape fun f => ∀ g ∈ r.fields, LogRecordForm.Means r g.1 f := by
  refine record_reads (LogRecordForm.Means r) (List.Subset.refl _) ?_
  rw [LogRecord.fields]
  repeat rw [List.forall_mem_cons]
  -- one entry for each member: its default, and how it is read
  refine ⟨⟨Eq.symm, fun _ _ _ hv _ => (flexibleUnsigned64_reads _).bind hv fun b hb => ⟨hb, ?_⟩⟩,
    ⟨Eq.symm, fun _ _ _ hv _ => (flexibleUnsigned64_reads _).bind hv fun b hb => ⟨hb, ?_⟩⟩,
    ⟨denotes_of_eq_zero, fun _ _ _ hv _ => (enumForm_reads _ _).bind hv fun b hb => ⟨hb, ?_⟩⟩,
    ⟨Eq.symm, fun _ _ _ hv _ => (text_reads _).bind hv fun b hb => ⟨hb, ?_⟩⟩,
    ⟨fun h => congrArg Except.ok (Eq.symm h), fun _ _ _ hv _ =>
      (optional_reads_eq (anyValue_reads _)).bind hv fun b hb => ⟨getD_of_body hb, ?_⟩⟩,
    ⟨converts_of_eq_nil, fun _ _ _ hv _ => (attributes_reads _).bind hv fun b hb => ⟨hb, ?_⟩⟩,
    ⟨Eq.symm, fun _ _ _ hv _ => (unsigned32_reads _).bind hv fun b hb => ⟨hb, ?_⟩⟩,
    ⟨isHexText_of_eq_nil, fun _ _ _ hv _ => (textOf_reads _).bind hv fun b hb => ⟨hb, ?_⟩⟩,
    ⟨isHexText_of_eq_nil, fun _ _ _ hv _ => (textOf_reads _).bind hv fun b hb => ⟨hb, ?_⟩⟩,
    List.forall_mem_nil _⟩
  -- setting one member leaves what the others mean as it was
  all_goals
    intro name hname hne hmeans
    simp only [logRecordNames, List.mem_cons, List.not_mem_nil, or_false] at hname
    rcases hname with rfl | rfl | rfl | rfl | rfl | rfl | rfl | rfl | rfl <;>
      first | exact hmeans | exact absurd rfl hne

/-- A log record is converted to the one it stands for. -/
theorem LogRecordForm.convert_of_means {r : LogRecord} {f : LogRecordForm}
    (h : ∀ g ∈ r.fields, LogRecordForm.Means r g.1 f) : f.convert = .ok r := by
  rw [LogRecord.fields] at h
  repeat rw [List.forall_mem_cons] at h
  obtain ⟨htime, hobserved, hseverity, htext, hbody, hattributes, hflags, htrace, hspan, -⟩ := h
  rw [LogRecordForm.convert]
  simp only [show f.time = _ from htime, show f.observedTime = _ from hobserved,
    hseverity "severity number", show f.severityText = _ from htext, show f.body = _ from hbody,
    Converts.convertAll hattributes, show f.flags = _ from hflags,
    identifier_of_isHexText htrace, identifier_of_isHexText hspan]
  rfl

/-! ## Points -/

/-- What the members of a point of a gauge or a sum mean. -/
def NumberPointForm.Means (p : NumberPoint) : String → NumberPointForm → Prop
  | "attributes", f => Converts p.attributes f.attributes
  | "startTimeUnixNano", f => f.startTime = p.startTime
  | "timeUnixNano", f => f.time = p.time
  | "asDouble", f => f.double = p.double?
  | "asInt", f => f.int = p.int?
  | "flags", f => f.flags = p.flags
  | _, _ => True

/-- A point has a value if it has either of the two, and the double goes first. -/
theorem NumberPoint.value_eq (p : NumberPoint) :
    (p.double?.map NumberValue.double <|> p.int?.map NumberValue.int) = p.value := by
  rw [NumberPoint.double?, NumberPoint.int?]
  match p.value with
  | none => rfl
  | some (.double x) => rfl
  | some (.int n) => rfl

/-- A point with a number is read as itself. -/
theorem numberPointForm_reads (p : NumberPoint) :
    Reads levels numberPointForm p.shape fun f => f.convert = .ok p := by
  refine Reads.imp (record_reads (NumberPointForm.Means p) (List.Subset.refl _) ?_) ?_
  · repeat rw [List.forall_mem_cons]
    refine ⟨⟨converts_of_eq_nil, fun _ _ _ hv _ =>
        (attributes_reads _).bind hv fun b hb => ⟨hb, ?_⟩⟩,
      ⟨Eq.symm, fun _ _ _ hv _ => (flexibleUnsigned64_reads _).bind hv fun b hb => ⟨hb, ?_⟩⟩,
      ⟨Eq.symm, fun _ _ _ hv _ => (flexibleUnsigned64_reads _).bind hv fun b hb => ⟨hb, ?_⟩⟩,
      ⟨Eq.symm, fun _ _ _ hv _ =>
        (ofOption_reads_eq double_reads _).bind hv fun b hb => ⟨hb, ?_⟩⟩,
      ⟨Eq.symm, fun _ _ _ hv _ =>
        (ofOption_reads_eq flexibleSigned64_reads _).bind hv fun b hb => ⟨hb, ?_⟩⟩,
      ⟨Eq.symm, fun _ _ _ hv _ => (unsigned32_reads _).bind hv fun b hb => ⟨hb, ?_⟩⟩,
      List.forall_mem_nil _⟩
    -- setting one member leaves what the others mean as it was
    all_goals
      intro name hname hne hmeans
      simp only [List.mem_cons, List.not_mem_nil, or_false] at hname
      rcases hname with rfl | rfl | rfl | rfl | rfl | rfl <;>
        first | exact hmeans | exact absurd rfl hne
  · intro f hf
    repeat rw [List.forall_mem_cons] at hf
    -- so all members of what was read are those of the point
    obtain ⟨hattributes, hstart, htime, hdouble, hint, hflags, -⟩ := hf
    rw [NumberPointForm.convert]
    simp only [Converts.convertAll hattributes, show f.startTime = _ from hstart,
      show f.time = _ from htime, show f.double = _ from hdouble, show f.int = _ from hint,
      show f.flags = _ from hflags, NumberPoint.value_eq]
    rfl

/-- What the members of a point of a histogram mean. -/
def HistogramMeans (p : HistogramPoint) : String → PointForm HistogramPoint → Prop
  | "attributes", f => Converts p.attributes f.attributes
  | "startTimeUnixNano", f => f.point.startTime = p.startTime
  | "timeUnixNano", f => f.point.time = p.time
  | "count", f => f.point.count = p.count
  | "sum", f => f.point.sum = p.sum
  | "bucketCounts", f => f.point.bucketCounts = p.bucketCounts
  | "explicitBounds", f => f.point.explicitBounds = p.explicitBounds
  | "min", f => f.point.min = p.min
  | "max", f => f.point.max = p.max
  | _, _ => True

/-- A point with a histogram is read as itself. -/
theorem histogramPointForm_reads (p : HistogramPoint) :
    Reads levels histogramPointForm p.shape fun f => convertHistogramPoint f = .ok p := by
  refine Reads.imp (record_reads (HistogramMeans p) (List.Subset.refl _) ?_) ?_
  · repeat rw [List.forall_mem_cons]
    -- one entry for each member: its default, and how it is read
    refine ⟨⟨converts_of_eq_nil, fun _ _ _ hv _ =>
        (attributes_reads _).bind hv fun b hb => ⟨hb, ?_⟩⟩,
      ⟨Eq.symm, fun _ _ _ hv _ => (flexibleUnsigned64_reads _).bind hv fun b hb => ⟨hb, ?_⟩⟩,
      ⟨Eq.symm, fun _ _ _ hv _ => (flexibleUnsigned64_reads _).bind hv fun b hb => ⟨hb, ?_⟩⟩,
      ⟨Eq.symm, fun _ _ _ hv _ => (flexibleUnsigned64_reads _).bind hv fun b hb => ⟨hb, ?_⟩⟩,
      ⟨Eq.symm, fun _ _ _ hv _ =>
        (ofOption_reads_eq double_reads _).bind hv fun b hb => ⟨hb, ?_⟩⟩,
      ⟨Eq.symm, fun _ _ _ hv _ => (list_reads_eq
        (fun _ _ => flexibleUnsigned64_reads) _).bind hv fun b hb => ⟨hb, ?_⟩⟩,
      ⟨Eq.symm, fun _ _ _ hv _ =>
        (list_reads_eq (fun _ _ => double_reads) _).bind hv fun b hb => ⟨hb, ?_⟩⟩,
      ⟨Eq.symm, fun _ _ _ hv _ =>
        (ofOption_reads_eq double_reads _).bind hv fun b hb => ⟨hb, ?_⟩⟩,
      ⟨Eq.symm, fun _ _ _ hv _ =>
        (ofOption_reads_eq double_reads _).bind hv fun b hb => ⟨hb, ?_⟩⟩,
      List.forall_mem_nil _⟩
    all_goals
      intro name hname hne hmeans
      simp only [histogramNames, List.mem_cons, List.not_mem_nil, or_false] at hname
      rcases hname with rfl | rfl | rfl | rfl | rfl | rfl | rfl | rfl | rfl <;>
        first | exact hmeans | exact absurd rfl hne
  · intro f hf
    repeat rw [List.forall_mem_cons] at hf
    obtain ⟨hattributes, hstart, htime, hcount, hsum, hbuckets, hbounds, hmin, hmax, -⟩ := hf
    rw [convertHistogramPoint]
    simp only [Converts.convertAll hattributes, show f.point.startTime = _ from hstart,
      show f.point.time = _ from htime, show f.point.count = _ from hcount,
      show f.point.sum = _ from hsum, show f.point.bucketCounts = _ from hbuckets,
      show f.point.explicitBounds = _ from hbounds, show f.point.min = _ from hmin,
      show f.point.max = _ from hmax]
    rfl

/-- What the members of a point of an exponential histogram mean. -/
def ExponentialMeans (p : ExponentialPoint) : String → PointForm ExponentialPoint → Prop
  | "attributes", f => Converts p.attributes f.attributes
  | "startTimeUnixNano", f => f.point.startTime = p.startTime
  | "timeUnixNano", f => f.point.time = p.time
  | "count", f => f.point.count = p.count
  | "sum", f => f.point.sum = p.sum
  | "scale", f => f.point.scale = p.scale
  | "zeroCount", f => f.point.zeroCount = p.zeroCount
  | _, _ => True

/-- A point with an exponential histogram is read as itself. -/
theorem exponentialPointForm_reads (p : ExponentialPoint) :
    Reads levels exponentialPointForm p.shape fun f => convertExponentialPoint f = .ok p := by
  refine Reads.imp (record_reads (ExponentialMeans p) (List.Subset.refl _) ?_) ?_
  · repeat rw [List.forall_mem_cons]
    -- one entry for each member: its default, and how it is read
    refine ⟨⟨converts_of_eq_nil, fun _ _ _ hv _ =>
        (attributes_reads _).bind hv fun b hb => ⟨hb, ?_⟩⟩,
      ⟨Eq.symm, fun _ _ _ hv _ => (flexibleUnsigned64_reads _).bind hv fun b hb => ⟨hb, ?_⟩⟩,
      ⟨Eq.symm, fun _ _ _ hv _ => (flexibleUnsigned64_reads _).bind hv fun b hb => ⟨hb, ?_⟩⟩,
      ⟨Eq.symm, fun _ _ _ hv _ => (flexibleUnsigned64_reads _).bind hv fun b hb => ⟨hb, ?_⟩⟩,
      ⟨Eq.symm, fun _ _ _ hv _ =>
        (ofOption_reads_eq double_reads _).bind hv fun b hb => ⟨hb, ?_⟩⟩,
      ⟨Eq.symm, fun _ _ _ hv _ => (signed32_reads _).bind hv fun b hb => ⟨hb, ?_⟩⟩,
      ⟨Eq.symm, fun _ _ _ hv _ => (flexibleUnsigned64_reads _).bind hv fun b hb => ⟨hb, ?_⟩⟩,
      List.forall_mem_nil _⟩
    all_goals
      intro name hname hne hmeans
      simp only [exponentialNames, List.mem_cons, List.not_mem_nil, or_false] at hname
      rcases hname with rfl | rfl | rfl | rfl | rfl | rfl | rfl <;>
        first | exact hmeans | exact absurd rfl hne
  · intro f hf
    repeat rw [List.forall_mem_cons] at hf
    obtain ⟨hattributes, hstart, htime, hcount, hsum, hscale, hzero, -⟩ := hf
    rw [convertExponentialPoint]
    simp only [Converts.convertAll hattributes, show f.point.startTime = _ from hstart,
      show f.point.time = _ from htime, show f.point.count = _ from hcount,
      show f.point.sum = _ from hsum, show f.point.scale = _ from hscale,
      show f.point.zeroCount = _ from hzero]
    rfl

/-- What the members of a quantile mean. -/
def QuantileMeans (q : Quantile) : String → Quantile → Prop
  | "quantile", f => f.quantile = q.quantile
  | "value", f => f.value = q.value
  | _, _ => True

/-- A quantile is read as itself. -/
theorem quantile_reads (q : Quantile) : Reads levels quantile q.shape (· = q) := by
  refine Reads.imp (record_reads (QuantileMeans q) (List.Subset.refl _) ?_) ?_
  · rw [List.forall_mem_cons, List.forall_mem_cons]
    refine ⟨⟨Eq.symm, fun _ _ _ hv _ => (double_reads _).bind hv fun b hb => ⟨hb, ?_⟩⟩,
      ⟨Eq.symm, fun _ _ _ hv _ => (double_reads _).bind hv fun b hb => ⟨hb, ?_⟩⟩,
      List.forall_mem_nil _⟩
    all_goals
      intro name hname hne hmeans
      simp only [List.mem_cons, List.not_mem_nil, or_false] at hname
      rcases hname with rfl | rfl <;> first | exact hmeans | exact absurd rfl hne
  · intro f hf
    rw [List.forall_mem_cons, List.forall_mem_cons] at hf
    obtain ⟨x, y⟩ := f
    obtain rfl : x = q.quantile := hf.1
    obtain rfl : y = q.value := hf.2.1
    rfl

/-- What the members of a point of a summary mean. -/
def SummaryMeans (p : SummaryPoint) : String → PointForm SummaryPoint → Prop
  | "attributes", f => Converts p.attributes f.attributes
  | "startTimeUnixNano", f => f.point.startTime = p.startTime
  | "timeUnixNano", f => f.point.time = p.time
  | "count", f => f.point.count = p.count
  | "sum", f => f.point.sum = p.sum
  | "quantileValues", f => f.point.quantiles = p.quantiles
  | _, _ => True

/-- A point with a summary is read as itself. -/
theorem summaryPointForm_reads (p : SummaryPoint) :
    Reads levels summaryPointForm p.shape fun f => convertSummaryPoint f = .ok p := by
  refine Reads.imp (record_reads (SummaryMeans p) (List.Subset.refl _) ?_) ?_
  · repeat rw [List.forall_mem_cons]
    -- one entry for each member: its default, and how it is read
    refine ⟨⟨converts_of_eq_nil, fun _ _ _ hv _ =>
        (attributes_reads _).bind hv fun b hb => ⟨hb, ?_⟩⟩,
      ⟨Eq.symm, fun _ _ _ hv _ => (flexibleUnsigned64_reads _).bind hv fun b hb => ⟨hb, ?_⟩⟩,
      ⟨Eq.symm, fun _ _ _ hv _ => (flexibleUnsigned64_reads _).bind hv fun b hb => ⟨hb, ?_⟩⟩,
      ⟨Eq.symm, fun _ _ _ hv _ => (flexibleUnsigned64_reads _).bind hv fun b hb => ⟨hb, ?_⟩⟩,
      ⟨Eq.symm, fun _ _ _ hv _ => (double_reads _).bind hv fun b hb => ⟨hb, ?_⟩⟩,
      ⟨Eq.symm, fun _ _ _ hv _ =>
        (list_reads_eq (fun _ _ => quantile_reads) _).bind hv fun b hb => ⟨hb, ?_⟩⟩,
      List.forall_mem_nil _⟩
    all_goals
      intro name hname hne hmeans
      simp only [summaryNames, List.mem_cons, List.not_mem_nil, or_false] at hname
      rcases hname with rfl | rfl | rfl | rfl | rfl | rfl <;>
        first | exact hmeans | exact absurd rfl hne
  · intro f hf
    repeat rw [List.forall_mem_cons] at hf
    obtain ⟨hattributes, hstart, htime, hcount, hsum, hquantiles, -⟩ := hf
    rw [convertSummaryPoint]
    simp only [Converts.convertAll hattributes, show f.point.startTime = _ from hstart,
      show f.point.time = _ from htime, show f.point.count = _ from hcount,
      show f.point.sum = _ from hsum, show f.point.quantiles = _ from hquantiles]
    rfl

end Telemetry.Otlp.FromJson
