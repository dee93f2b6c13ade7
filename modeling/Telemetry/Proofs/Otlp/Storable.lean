import Telemetry.Proofs.Ingest.Batch
import Telemetry.Proofs.Otlp.Parts
import Telemetry.Proofs.Otlp.Units
import Telemetry.Proofs.Text.Hex

/-!
What is decoded can be stored.

The tables ask for times that fit a word, for durations that are not negative, and for parents that
are absent or not empty. A decoder that gets numbers of 64 bits and identifiers of any bytes has to
see to all three, on each of its ways to a record: times come from the wire or from the clock,
durations are cut off at both ends, and an identifier without bytes is none at all. So no unit of a
decoded request is ever refused, and a batch of such units never falls back to one unit at a time.
-/

set_option autoImplicit false

namespace Telemetry

open Time (Instant)
open Text.Integer (fitsSigned64 maxSigned64)

/-! ## Records that can be stored -/

/-- What holds of a span that can be stored and has an end. -/
structure Span.Storable (x : Span) : Prop where
  traceId : Identifier.IsDigits x.traceId
  spanId : Identifier.IsDigits x.spanId
  parentSpanId : x.parentSpanId ≠ some ""
  duration : 0 ≤ x.duration
  finish : ∃ t, x.finish = .ok t ∧ t.inCalendar = true

/-- What holds of a record that can be stored under the name of a service. -/
structure Record.Storable (r : Record) : Prop where
  time : fitsSigned64 r.time.toNanos = true
  service : r.service ≠ ""
  span : ∀ x, r = .span x → x.Storable

/-- A storable record is admissible. -/
theorem Record.Storable.admissible {r : Record} (h : r.Storable) : r.Admissible := by
  refine admissible_iff.2 ⟨h.time, ?_⟩
  cases r with
  | metric m => trivial
  | span x => exact ⟨(h.span x rfl).duration, (h.span x rfl).parentSpanId⟩
  | log l => trivial

namespace Otlp

/-! ## What the records are made of -/

/-- The name of a service is never empty, because one that is becomes `unknown`. -/
theorem serviceName_ne_empty (resource : Option Resource) : serviceName resource ≠ "" := by
  rw [serviceName]
  split
  · decide
  · split
    next => decide
    next hname => exact fun h => hname (by rw [h]; rfl)

/-- Items come with services that have names. -/
theorem Export.service_ne_empty {α : Type} {e : Export α} {service : String} {item : α}
    (h : (service, item) ∈ e.items) : service ≠ "" := by
  rw [items, List.mem_flatMap] at h
  obtain ⟨r, -, h⟩ := h
  obtain ⟨s, -, h⟩ := List.mem_flatMap.1 h
  obtain ⟨i, -, h⟩ := List.mem_map.1 h
  cases h
  exact serviceName_ne_empty r.resource

variable {received t : Instant}

/-- The time of a point fits a word, if that of its receipt does. -/
theorem fits_of_pointTime (hreceived : fitsSigned64 received.toNanos = true) {time : UInt64}
    (h : pointTime time received = .ok t) : fitsSigned64 t.toNanos = true := by
  rw [pointTime] at h
  split at h
  · cases h
    exact hreceived
  · exact Instant.fits_of_ofWire h

theorem fits_of_logTime (hreceived : fitsSigned64 received.toNanos = true) {r : LogRecord}
    (h : logTime r received = .ok t) : fitsSigned64 t.toNanos = true := by
  rw [logTime] at h
  split at h
  · exact Instant.fits_of_ofWire h
  · split at h
    · exact Instant.fits_of_ofWire h
    · cases h
      exact hreceived

/-- An identifier is not stored as an empty text. -/
theorem encode?_ne_empty (bytes : List UInt8) : Identifier.encode? bytes ≠ some "" :=
  fun h => (Identifier.isDigits_of_encode? h).1 rfl

/-- The duration of a span is neither negative nor too great, whatever its times are. -/
theorem spanDuration_bounds (start stop : UInt64) :
    0 ≤ spanDuration start stop ∧ spanDuration start stop ≤ maxSigned64 := by
  rw [spanDuration, maxSigned64]
  omega

/-- A span that starts and lasts no longer than fits a word ends within the calendar. -/
theorem finish_eq_ok {x : Telemetry.Span} {n : Nat} (hn : n ≤ maxSigned64)
    (hstart : x.start = .ofNanos n) (hduration : 0 ≤ x.duration ∧ x.duration ≤ maxSigned64) :
    ∃ t, x.finish = .ok t ∧ t.inCalendar = true := by
  have hshift : x.start.shift x.duration = .ofNanos (n + x.duration) := by
    rw [hstart, Instant.shift_of_not_leap (Instant.isLeap_ofNanos _), Instant.toNanos_ofNanos]
  have hin : (Instant.ofNanos (n + x.duration)).inCalendar = true := by
    rw [Instant.inCalendar_iff]
    simp only [Instant.ofNanos, Instant.firstSecond, Instant.lastSecond, Time.nanosPerSecond,
      maxSigned64] at *
    omega
  refine ⟨_, ?_, hin⟩
  rw [Span.finish, Instant.minus, Instant.minus?, Int.neg_neg, Instant.plus?, hshift, if_pos hin]

/-! ## Units -/

variable {service : String}

/-- A span is decoded to one that can be stored, as long as the source says. -/
theorem of_decodeSpan {s : Span} {x : Telemetry.Span} (hservice : service ≠ "")
    (h : decodeSpan service s = .ok x) :
    (Record.span x).Storable ∧ x.duration = spanDuration s.startTime s.endTime := by
  rw [decodeSpan] at h
  split at h
  next traceId htrace =>
    split at h
    next spanId hspan =>
      obtain ⟨start, hstart, h⟩ := Fallible.bind_eq_ok h
      cases h
      obtain ⟨hle, rfl⟩ := Instant.of_ofWire_eq_ok hstart
      have hbounds := spanDuration_bounds s.startTime s.endTime
      refine ⟨⟨Instant.fits_of_ofWire hstart, hservice, ?_⟩, rfl⟩
      rintro _ ⟨⟩
      exact ⟨Identifier.isDigits_of_encode? htrace, Identifier.isDigits_of_encode? hspan,
        encode?_ne_empty _, hbounds.1, finish_eq_ok hle rfl hbounds⟩
    next => cases h
  next => cases h

/-- A log record that is decoded is storable. -/
theorem of_decodeLog (hreceived : fitsSigned64 received.toNanos = true) {r : LogRecord}
    {l : Telemetry.LogRecord} (hservice : service ≠ "")
    (h : decodeLog service received r = .ok l) : (Record.log l).Storable := by
  obtain ⟨t, ht, h⟩ := Fallible.bind_eq_ok h
  cases h
  exact ⟨fits_of_logTime hreceived ht, hservice, nofun⟩

/-- The rows of a point are storable. -/
theorem RowsOfPoint.storable (hreceived : fitsSigned64 received.toNanos = true)
    (hservice : service ≠ "") {unit : WriteUnit} (h : RowsOfPoint service received unit) :
    ∀ r ∈ unit, r.Storable := by
  obtain ⟨b, rfl, ⟨time, ht⟩, hrows⟩ := h
  intro r hr
  obtain ⟨m, rfl, hm⟩ := hrows r hr
  refine ⟨?_, ?_, nofun⟩
  · rw [Record.time, hm.time_eq]
    exact fits_of_pointTime hreceived ht
  · rw [Record.service, hm.service_eq]
    exact hservice

/-- Whatever becomes of a part of a request can be stored. -/
theorem storable_of_mem_results (hreceived : fitsSigned64 received.toNanos = true) {r : Request}
    {unit : WriteUnit} (h : .ok unit ∈ r.results received) : ∀ record ∈ unit, record.Storable := by
  cases r with
  | metrics e =>
    obtain ⟨⟨service, m⟩, hm, hunit⟩ := List.mem_flatMap.1 h
    exact (rowsOfPoint_of_decodeMetric hunit).storable hreceived (Export.service_ne_empty hm)
  | traces e =>
    obtain ⟨⟨service, s⟩, hs, hunit⟩ := List.mem_flatMap.1 h
    obtain ⟨x, hx, rfl⟩ := Fallible.map_eq_ok (List.mem_singleton.1 hunit).symm
    exact List.forall_mem_singleton.2 (of_decodeSpan (Export.service_ne_empty hs) hx).1
  | logs e =>
    obtain ⟨⟨service, l⟩, hl, hunit⟩ := List.mem_flatMap.1 h
    obtain ⟨x, hx, rfl⟩ := Fallible.map_eq_ok (List.mem_singleton.1 hunit).symm
    exact List.forall_mem_singleton.2 (of_decodeLog hreceived (Export.service_ne_empty hl) hx)

/-- The units that some items are decoded to come from some of them, one from each, in order. -/
theorem exists_sublist_units {α : Type} (f : α → Except Error WriteUnit) (items : List α) :
    ∃ kept, kept.Sublist items ∧ List.Forall₂ (fun item unit => f item = .ok unit) kept
      (Decoded.ofResults (items.map f)).units := by
  induction items with
  | nil => exact ⟨[], .slnil, .nil⟩
  | cons item items ih =>
    obtain ⟨kept, hsublist, hunits⟩ := ih
    rw [List.map_cons]
    cases hitem : f item with
    | ok unit => exact ⟨item :: kept, hsublist.cons_cons item, .cons hitem hunits⟩
    | error e => exact ⟨kept, hsublist.cons item, hunits⟩

/-! ## Requests -/

/-- **The decoder produces only what can be stored.** Of a request of any signal that is received at
an instant which fits a word, each unit has records, and each record can be stored: its time fits a
word, its service has a name, and a span has identifiers in lower-case digits, a parent that is
absent or not empty, a duration that is not negative, and an end in the calendar. The duration of a
span is that from its start to its end, but at least zero and at most the greatest signed word.
Inserting the units never fails, one by one or in any batch, whatever the store holds. -/
theorem decode_storable (r : Request) (hreceived : fitsSigned64 received.toNanos = true) :
    (∀ unit ∈ (r.decode received).units, unit ≠ [] ∧ ∀ record ∈ unit, record.Storable) ∧
    (∀ e, r = .traces e → ∃ kept, kept.Sublist e.items ∧
      List.Forall₂ (fun (item : String × Span) unit => ∃ x : Telemetry.Span, unit = [.span x] ∧
          x.duration = min (max 0 ((item.2.endTime.toNat : Int) - item.2.startTime.toNat))
            0x7FFFFFFFFFFFFFFF)
        kept (r.decode received).units) ∧
    ∀ (now : Instant) (s : Store) (chosen : List WriteUnit),
      chosen ⊆ (r.decode received).units →
      (s.insertAll now chosen.flatten).2 = .ok () ∧
      Ingest.writeBatch now s [chosen] = ((s.insertAll now chosen.flatten).1, [0]) := by
  -- each record of a unit is storable, so any choice of units is admissible
  have hunits : ∀ unit ∈ (r.decode received).units,
      unit ≠ [] ∧ ∀ record ∈ unit, record.Storable := by
    intro unit hunit
    rw [Request.decode_eq_ofResults, mem_units_ofResults] at hunit
    exact ⟨Request.ne_nil_of_mem_results hunit, storable_of_mem_results hreceived hunit⟩
  refine ⟨hunits, ?_, fun now s chosen hchosen => ?_⟩
  · rintro e rfl
    -- the spans that are decoded are some of the items, in their order
    obtain ⟨kept, hsublist, hkept⟩ := exists_sublist_units
      (fun (item : String × Span) => (decodeSpan item.1 item.2).map fun s => [.span s]) e.items
    have hitems := (List.forall₂_and_left _ _).2 ⟨fun item h => hsublist.subset h, hkept⟩
    refine ⟨kept, hsublist, hitems.imp ?_⟩
    rintro ⟨service, s⟩ unit ⟨hmem, hunit⟩
    obtain ⟨x, hx, rfl⟩ := Fallible.map_eq_ok hunit
    exact ⟨x, rfl, (of_decodeSpan (Export.service_ne_empty hmem) hx).2⟩
  · have haccepts : Store.Accepts chosen.flatten := Store.accepts_flatten.2 fun unit hunit record
      hrecord => ((hunits unit (hchosen hunit)).2 record hrecord).admissible
    refine ⟨(s.insertAll_ok_iff now _).2 haccepts, ?_⟩
    have hflatten : [chosen].flatten.flatten = chosen.flatten := by simp
    rw [Ingest.writeBatch_of_accepts (hflatten ▸ haccepts), hflatten]
    rfl

/-- An export of one span, which ends before it starts, and whose parent has no bytes. -/
def reversedSpan : Export Span where
  resources := [{ scopes := [{ items := [{
    traceId := [0xAB], spanId := [0x01], startTime := 5, endTime := 3 }] }] }]

/-- A span that ends before it starts: it is stored with no duration. -/
theorem reversedSpan_storable :
    fitsSigned64 Instant.epoch.toNanos = true ∧
    (∃ x : Telemetry.Span, ((Request.traces reversedSpan).decode .epoch).units = [[.span x]] ∧
      x.duration = 0 ∧ (Record.span x).Storable) ∧
    ∀ (now : Instant) (s : Store),
      (s.insertAll now ((Request.traces reversedSpan).decode .epoch).units.flatten).2 = .ok () := by
  have hfits : fitsSigned64 Instant.epoch.toNanos = true := by decide
  obtain ⟨hunits, -, hinsert⟩ := decode_storable (.traces reversedSpan) hfits
  refine ⟨hfits, ⟨_, rfl, rfl, ?_⟩, fun now s => (hinsert now s _ (List.Subset.refl _)).1⟩
  exact (hunits _ (List.mem_singleton.2 rfl)).2 _ (List.mem_singleton.2 rfl)

end Otlp

end Telemetry
