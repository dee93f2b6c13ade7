import Telemetry.Proofs.Otlp.Parts
import Telemetry.Proofs.Otlp.Units

/-!
The service to which decoded records belong.

A part of a request stands in the group of one resource, and the attributes of this resource say
which service it is (`NamesService`). All records that the part is decoded to belong to this
service, whatever kind of records they are and however many.
-/

set_option autoImplicit false

namespace Telemetry.Otlp

open Time (Instant)

/-! ## Names of services -/

/-- Whether attributes give a name to a service. It is the text of the first attribute
`service.name`; where this one has no text or an empty one, or where there is none, it is
`unknown`. -/
inductive NamesService (attributes : List KeyValue) : String → Prop where
  | named {before after : List KeyValue} {v : AnyValue} {name : String}
      (hattributes : attributes = before ++ ("service.name", v) :: after)
      (hfirst : ∀ kv ∈ before, kv.1 ≠ "service.name")
      (htext : v.label? = some name) (hname : name ≠ "") : NamesService attributes name
  | unnamed {before after : List KeyValue} {v : AnyValue}
      (hattributes : attributes = before ++ ("service.name", v) :: after)
      (hfirst : ∀ kv ∈ before, kv.1 ≠ "service.name")
      (htext : v.label? = none ∨ v.label? = some "") : NamesService attributes "unknown"
  | absent (hnone : ∀ kv ∈ attributes, kv.1 ≠ "service.name") : NamesService attributes "unknown"

/-- The attributes of a resource, none if it is absent. -/
def attributesOf (resource : Option Resource) : List KeyValue :=
  (resource.map (·.attributes)).getD []

/-- The name that is used is the one that the attributes give. -/
theorem namesService_serviceName (resource : Option Resource) :
    NamesService (attributesOf resource) (serviceName resource) := by
  simp only [serviceName]
  rw [← attributesOf]
  generalize attributesOf resource = attributes
  -- the first attribute of this key decides, also when it is no text or an empty one
  cases hfind : attributes.find? fun kv => kv.1 == "service.name" with
  | none => exact .absent (by simpa using hfind)
  | some kv =>
    obtain ⟨hkey, before, after, hattributes, hbefore⟩ := List.find?_eq_some_iff_append.1 hfind
    obtain ⟨key, v⟩ := kv
    obtain rfl : key = "service.name" := by simpa using hkey
    have hfirst : ∀ kv ∈ before, kv.1 ≠ "service.name" := by simpa using hbefore
    simp only [Option.bind_some]
    cases htext : v.label? with
    | none => exact .unnamed hattributes hfirst (.inl htext)
    | some name =>
      by_cases hempty : name.isEmpty = true
      · have hnone : name = "" := String.isEmpty_iff.1 hempty
        simp only [hempty, if_true]
        exact .unnamed hattributes hfirst (.inr (htext.trans (congrArg some hnone)))
      · simp only [hempty]
        exact .named hattributes hfirst htext fun h => hempty (String.isEmpty_iff.2 h)

/-! ## Services of parts -/

/-- The attributes of the resource under which an export begins. -/
def Export.attributes {α : Type} (e : Export α) : List KeyValue :=
  attributesOf (e.resources.head?.bind (·.resource))

/-- The attributes of the resource under which a request begins. For a part of a request this is the
only one. -/
def Request.attributes : Request → List KeyValue
  | .metrics e => e.attributes
  | .traces e => e.attributes
  | .logs e => e.attributes

variable {service : String} {received : Instant}

/-- A span is decoded to one of the service that it is decoded for. -/
theorem service_of_decodeSpan {s : Span} {x : Telemetry.Span}
    (h : decodeSpan service s = .ok x) : x.service = service := by
  rw [decodeSpan] at h
  split at h
  · split at h
    · obtain ⟨start, -, h⟩ := Fallible.bind_eq_ok h
      cases h
      rfl
    · cases h
  · cases h

/-- So is a log record. -/
theorem service_of_decodeLog {r : LogRecord} {l : Telemetry.LogRecord}
    (h : decodeLog service received r = .ok l) : l.service = service := by
  obtain ⟨time, -, h⟩ := Fallible.bind_eq_ok h
  cases h
  rfl

/-- And so are the rows of a point. -/
theorem RowsOfPoint.service_eq {unit : WriteUnit} (h : RowsOfPoint service received unit) :
    ∀ record ∈ unit, record.service = service := by
  obtain ⟨b, rfl, -, hrows⟩ := h
  intro record hrecord
  obtain ⟨m, rfl, hm⟩ := hrows record hrecord
  exact hm.service_eq

/-- The records of a part belong to the service that its resource names. -/
theorem Request.services_of_mem_parts {r p : Request} (h : p ∈ r.parts) {unit : WriteUnit}
    (hunit : unit ∈ (p.decode received).units) :
    ∃ name, NamesService p.attributes name ∧ ∀ record ∈ unit, record.service = name := by
  rw [decode_eq_ofResults, mem_units_ofResults] at hunit
  -- a part has one item, so its records are those of this item under the service of its group
  cases r with
  | metrics e =>
    obtain ⟨_, hp, rfl⟩ := List.mem_map.1 h
    obtain ⟨g, s, m, p, -, rfl⟩ := Export.mem_parts hp
    rw [results, Export.results_single] at hunit
    exact ⟨_, namesService_serviceName g.resource,
      (rowsOfPoint_of_decodeMetric hunit).service_eq⟩
  | traces e =>
    obtain ⟨_, hp, rfl⟩ := List.mem_map.1 h
    obtain ⟨g, s, m, p, -, rfl⟩ := Export.mem_parts hp
    rw [results, Export.results_single] at hunit
    obtain ⟨x, hx, rfl⟩ := Fallible.map_eq_ok (List.mem_singleton.1 hunit).symm
    exact ⟨_, namesService_serviceName g.resource,
      List.forall_mem_singleton.2 (service_of_decodeSpan hx)⟩
  | logs e =>
    obtain ⟨_, hp, rfl⟩ := List.mem_map.1 h
    obtain ⟨g, s, m, p, -, rfl⟩ := Export.mem_parts hp
    rw [results, Export.results_single] at hunit
    obtain ⟨l, hl, rfl⟩ := Fallible.map_eq_ok (List.mem_singleton.1 hunit).symm
    exact ⟨_, namesService_serviceName g.resource,
      List.forall_mem_singleton.2 (service_of_decodeLog hl)⟩

end Telemetry.Otlp
