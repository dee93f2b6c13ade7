import Telemetry.Proofs.Otlp.Envelope
import Telemetry.Proofs.Otlp.JsonMetrics

/-!
A request in JSON is decoded like the request that it looks like.

The envelope is the same for all signals but for three names and the way in which items are taken.
What is read of it keeps the service of each resource and the order of the items, and loses nothing
where the items lose nothing. Units depend on the items and on their services only, so whatever is
decoded from one form is decoded from the other.
-/

set_option autoImplicit false

namespace Telemetry.Otlp.FromJson

open Json (Shape Field Fits)
open Json.Decoder

variable {levels : Nat}

/-! ## Resources and scopes -/

/-- What the members of a resource mean. -/
def ResourceMeans (r : Resource) : String → ResourceForm → Prop
  | "attributes", f => Converts r.attributes f.attributes
  | "droppedAttributesCount", f => f.droppedAttributes = r.droppedAttributes
  | _, _ => True

/-- What a resource that has been read stands for. -/
def ResourceGood (r : Resource) (f : ResourceForm) : Prop := Converts r.attributes f.attributes

/-- A value that looks like a resource is read as one with the same attributes. -/
theorem resourceForm_reads (r : Resource) :
    Reads levels resourceForm r.shape (ResourceGood r) := by
  refine Reads.imp (record_reads (ResourceMeans r) (List.Subset.refl _) ?_) ?_
  · rw [List.forall_mem_cons, List.forall_mem_cons]
    refine ⟨⟨converts_of_eq_nil, fun _ _ _ hv _ =>
        (attributes_reads _).bind hv fun b hb => ⟨hb, ?_⟩⟩,
      ⟨Eq.symm, fun _ _ _ hv _ => (unsigned32_reads _).bind hv fun b hb => ⟨hb, ?_⟩⟩,
      List.forall_mem_nil _⟩
    -- reading one member leaves what the other one means as it was
    all_goals
      intro name hname hne hmeans
      simp only [List.mem_cons, List.not_mem_nil, or_false] at hname
      rcases hname with rfl | rfl <;> first | exact hmeans | exact absurd rfl hne
  · intro f hf
    exact hf _ List.mem_cons_self

/-- What the members of a scope mean. -/
def ScopeMeans (s : Scope) : String → ScopeForm → Prop
  | "name", f => f.name = s.name
  | "version", f => f.version = s.version
  | "attributes", f => Converts s.attributes f.attributes
  | _, _ => True

/-- What a scope that has been read stands for. -/
def ScopeGood (s : Scope) (f : ScopeForm) : Prop := Converts s.attributes f.attributes

/-- A value that looks like a scope is read as one with the same attributes. -/
theorem scopeForm_reads (s : Scope) : Reads levels scopeForm s.shape (ScopeGood s) := by
  refine Reads.imp (record_reads (ScopeMeans s) (List.Subset.refl _) ?_) ?_
  · repeat rw [List.forall_mem_cons]
    refine ⟨⟨Eq.symm, fun _ _ _ hv _ => (text_reads _).bind hv fun b hb => ⟨hb, ?_⟩⟩,
      ⟨Eq.symm, fun _ _ _ hv _ => (text_reads _).bind hv fun b hb => ⟨hb, ?_⟩⟩,
      ⟨converts_of_eq_nil, fun _ _ _ hv _ =>
        (attributes_reads _).bind hv fun b hb => ⟨hb, ?_⟩⟩,
      List.forall_mem_nil _⟩
    all_goals
      intro name hname hne hmeans
      simp only [List.mem_cons, List.not_mem_nil, or_false] at hname
      rcases hname with rfl | rfl | rfl <;> first | exact hmeans | exact absurd rfl hne
  · intro f hf
    repeat rw [List.forall_mem_cons] at hf
    -- of the three members only the attributes are looked at later
    exact hf.2.2.1

/-! ## Groups -/

section Envelope

variable {α : Type} {n : Naming}

/-- What the members of a group by scope mean. -/
def ScopeGroupMeans (shape : α → Shape) (g : ScopeGroup α) (name : String)
    (f : ScopeGroupForm) : Prop :=
  if name = "scope" then StandsFor ScopeGood (g.scope.getD default) f.scope
  else if name = "schemaUrl" then f.schemaUrl = g.schemaUrl
  else LookLike shape g.items f.items

/-- What a group by scope that has been read stands for. -/
def ScopeGroupGood (shape : α → Shape) (g : ScopeGroup α) (f : ScopeGroupForm) : Prop :=
  StandsFor ScopeGood (g.scope.getD default) f.scope ∧ LookLike shape g.items f.items

theorem scopeGroupMeans_items (hn : n.Apart) (shape : α → Shape) (g : ScopeGroup α)
    (f : ScopeGroupForm) : ScopeGroupMeans shape g n.items f ↔ LookLike shape g.items f.items := by
  rw [ScopeGroupMeans, if_neg hn.items_ne_scope, if_neg hn.items_ne_schemaUrl]

/-- A value that looks like a group by scope is read as a group whose scope and items look like
those given. The items are not read yet. -/
theorem scopeGroupForm_reads (hn : n.Apart) (shape : α → Shape) (g : ScopeGroup α) :
    Reads levels (scopeGroupForm n) (g.shape n shape) (ScopeGroupGood shape g) := by
  refine Reads.imp (record_reads (ScopeGroupMeans shape g) (List.Subset.refl _) ?_) ?_
  · repeat rw [List.forall_mem_cons]
    refine ⟨⟨id, fun _ _ _ hv _ =>
        (message_reads scopeForm_reads _).bind hv fun b hb => ⟨hb, ?_⟩⟩,
      ⟨fun h => ?_, fun _ _ v hv a => ?_⟩,
      ⟨Eq.symm, fun _ _ _ hv _ => (text_reads _).bind hv fun b hb => ⟨hb, ?_⟩⟩,
      List.forall_mem_nil _⟩
    -- one goal for each member, and for the items two: left out, they are empty
    · intro name _ hne hmeans
      rw [ScopeGroupMeans, if_neg (show name ≠ "scope" from hne)] at hmeans ⊢
      exact hmeans
    · refine (scopeGroupMeans_items hn shape g _).2 ?_
      rw [show g.items = [] from h]
      exact .nil
    · -- the name of the items is none of the others, so the last branch is taken
      obtain ⟨vs, hvs, hlook⟩ := list_reads (fun _ _ i => plain_reads (shape i)) g.items v hv
      refine ⟨{ a with items := vs }, ?_, (scopeGroupMeans_items hn shape g _).2 hlook, ?_⟩
      · refine (if_neg hn.items_ne_scope).trans ((if_neg hn.items_ne_schemaUrl).trans ?_)
        rw [hvs]
        rfl
      · intro name hname hne hmeans
        simp only [List.mem_cons, List.not_mem_nil, or_false] at hname
        rcases hname with rfl | rfl | rfl <;> first | exact hmeans | exact absurd rfl hne
    · intro name _ hne hmeans
      rw [ScopeGroupMeans, if_neg (show name ≠ "schemaUrl" from hne)] at hmeans ⊢
      exact hmeans
  · intro f hf
    repeat rw [List.forall_mem_cons] at hf
    exact ⟨hf.1, (scopeGroupMeans_items hn shape g f).1 hf.2.1⟩

/-- What the members of a group by resource mean. -/
def ResourceGroupMeans (shape : α → Shape) (g : ResourceGroup α) (name : String)
    (f : ResourceGroupForm) : Prop :=
  if name = "resource" then StandsFor ResourceGood (g.resource.getD default) f.resource
  else if name = "schemaUrl" then f.schemaUrl = g.schemaUrl
  else List.Forall₂ (ScopeGroupGood shape) g.scopes f.scopes

/-- What a group by resource that has been read stands for. -/
def ResourceGroupGood (shape : α → Shape) (g : ResourceGroup α) (f : ResourceGroupForm) : Prop :=
  StandsFor ResourceGood (g.resource.getD default) f.resource ∧
    List.Forall₂ (ScopeGroupGood shape) g.scopes f.scopes

/-- The member with the scopes means that each of them stands for the one given. -/
theorem resourceGroupMeans_scopes (hn : n.Apart) (shape : α → Shape) (g : ResourceGroup α)
    (f : ResourceGroupForm) : ResourceGroupMeans shape g n.scopes f ↔
      List.Forall₂ (ScopeGroupGood shape) g.scopes f.scopes := by
  rw [ResourceGroupMeans, if_neg hn.scopes_ne_resource, if_neg hn.scopes_ne_schemaUrl]

/-- A value that looks like a group by resource is read as a group whose resource and scopes look
like those given. -/
theorem resourceGroupForm_reads (hn : n.Apart) (shape : α → Shape) (g : ResourceGroup α) :
    Reads levels (resourceGroupForm n) (g.shape n shape) (ResourceGroupGood shape g) := by
  refine Reads.imp (record_reads (ResourceGroupMeans shape g) (List.Subset.refl _) ?_) ?_
  · repeat rw [List.forall_mem_cons]
    refine ⟨⟨id, fun _ _ _ hv _ =>
        (message_reads resourceForm_reads _).bind hv fun b hb => ⟨hb, ?_⟩⟩,
      ⟨fun h => ?_, fun _ _ v hv a => ?_⟩,
      ⟨Eq.symm, fun _ _ _ hv _ => (text_reads _).bind hv fun b hb => ⟨hb, ?_⟩⟩,
      List.forall_mem_nil _⟩
    · intro name _ hne hmeans
      rw [ResourceGroupMeans, if_neg (show name ≠ "resource" from hne)] at hmeans ⊢
      exact hmeans
    · refine (resourceGroupMeans_scopes hn shape g _).2 ?_
      rw [show g.scopes = [] from h]
      exact .nil
    -- as with the items of a scope, their name takes the last branch
    · obtain ⟨fs, hfs, hall⟩ := list_reads (fun _ _ => scopeGroupForm_reads hn shape) g.scopes v hv
      refine ⟨{ a with scopes := fs }, ?_, (resourceGroupMeans_scopes hn shape g _).2 hall, ?_⟩
      · refine (if_neg hn.scopes_ne_resource).trans ((if_neg hn.scopes_ne_schemaUrl).trans ?_)
        rw [hfs]
        rfl
      · intro name hname hne hmeans
        simp only [List.mem_cons, List.not_mem_nil, or_false] at hname
        rcases hname with rfl | rfl | rfl <;> first | exact hmeans | exact absurd rfl hne
    · intro name _ hne hmeans
      rw [ResourceGroupMeans, if_neg (show name ≠ "schemaUrl" from hne)] at hmeans ⊢
      exact hmeans
  · intro f hf
    repeat rw [List.forall_mem_cons] at hf
    exact ⟨hf.1, (resourceGroupMeans_scopes hn shape g f).1 hf.2.1⟩

/-- A value that looks like an export is read as its groups, one by one. -/
theorem envelopeForm_reads (hn : n.Apart) (shape : α → Shape) (e : Export α) :
    Reads levels (envelopeForm n) (e.shape n shape)
      (List.Forall₂ (ResourceGroupGood shape) e.resources) := by
  refine record_single_reads _ List.mem_cons_self (fun h => ?_) fun inner _ => ?_
  · rw [show e.resources = [] from h]
    exact .nil
  · exact list_reads (fun _ _ => resourceGroupForm_reads hn shape) e.resources

/-! ## Taking groups

Taking keeps what converts. In a rendering of a message everything does, so nothing is lost and
what is kept is the message. -/

/-- Whether items that look like the given ones are all taken, each as one that is the same. -/
def TakesAll (shape : α → Shape) (same : α → α → Prop)
    (takeItems : Losses → List Json → List α × Losses) : Prop :=
  ∀ (items : List α) (vs : List Json), LookLike shape items vs → ∀ l, ∃ items',
    takeItems l vs = (items', l) ∧ List.Forall₂ same items items'

/-- Whether groups by scope have the same items. -/
def SameScopeGroup (same : α → α → Prop) (g g' : ScopeGroup α) : Prop :=
  List.Forall₂ same g.items g'.items

/-- Whether groups by resource have the same service and the same items. -/
def SameResourceGroup (same : α → α → Prop) (g g' : ResourceGroup α) : Prop :=
  serviceName g.resource = serviceName g'.resource ∧
    List.Forall₂ (SameScopeGroup same) g.scopes g'.scopes

variable {shape : α → Shape} {same : α → α → Prop}
  {takeItems : Losses → List Json → List α × Losses}

theorem Losses.drop_zero (l : Losses) : l.drop 0 = l := rfl

/-- A group by scope is taken without a loss: its attributes are all kept, and each item is taken
as one that is the same. -/
theorem takeScope_eq (htake : TakesAll shape same takeItems) {g : ScopeGroup α}
    {f : ScopeGroupForm} (h : ScopeGroupGood shape g f) (l : Losses) :
    ∃ g', takeScope takeItems f l = (g', l) ∧ SameScopeGroup same g g' := by
  obtain ⟨hscope, hlook⟩ := h
  obtain ⟨items', hitems, hsame⟩ := htake g.items f.items hlook l
  obtain ⟨scope, items, schemaUrl⟩ := f
  -- a scope that is left out has no attributes that could be lost
  cases scope with
  | none =>
    refine ⟨{ items := items', schemaUrl }, ?_, hsame⟩
    simp only [takeScope, hitems]
  | some s =>
    have hkept : keepConvertible s.attributes = _ := Converts.keepConvertible hscope
    refine ⟨{ scope := some ⟨s.name, s.version, (g.scope.getD default).attributes⟩,
              items := items', schemaUrl }, ?_, hsame⟩
    simp only [takeScope, hitems, hkept, Losses.drop_zero]

/-- Groups by scope are taken without a loss, by induction on them. -/
theorem takeScopes_eq (htake : TakesAll shape same takeItems) {gs : List (ScopeGroup α)}
    {fs : List ScopeGroupForm} (h : List.Forall₂ (ScopeGroupGood shape) gs fs) (l : Losses) :
    ∃ gs', takeScopes takeItems fs l = (gs', l) ∧
      List.Forall₂ (SameScopeGroup same) gs gs' := by
  induction h with
  | nil => exact ⟨[], rfl, .nil⟩
  | cons hfirst _ ih =>
    obtain ⟨g', hg', hsame⟩ := takeScope_eq htake hfirst l
    obtain ⟨gs', hgs', hall⟩ := ih
    refine ⟨g' :: gs', ?_, .cons hsame hall⟩
    simp only [takeScopes, hg', hgs']

/-- The service depends on the attributes only, and nothing has none like an empty resource. -/
theorem serviceName_getD (resource : Option Resource) :
    serviceName (some (resource.getD default)) = serviceName resource := by
  cases resource with
  | none => rfl
  | some r => rfl

/-- Resources with the same attributes name the same service. -/
theorem serviceName_of_attributes {r r' : Resource} (h : r.attributes = r'.attributes) :
    serviceName (some r) = serviceName (some r') := by
  simp only [serviceName, Option.map_some, h]

/-- A group by resource is taken without a loss, and it keeps its service. -/
theorem takeResource_eq (htake : TakesAll shape same takeItems) {g : ResourceGroup α}
    {f : ResourceGroupForm} (h : ResourceGroupGood shape g f) (l : Losses) :
    ∃ g', takeResource takeItems f l = (g', l) ∧ SameResourceGroup same g g' := by
  obtain ⟨hresource, hscopes⟩ := h
  obtain ⟨scopes', htaken, hsame⟩ := takeScopes_eq htake hscopes l
  obtain ⟨resource, scopes, schemaUrl⟩ := f
  cases resource with
  | none =>
    refine ⟨{ scopes := scopes', schemaUrl }, ?_, ?_, hsame⟩
    · simp only [takeResource, htaken]
    -- a resource that was left out is an empty one, so there is no service in either
    · rw [← serviceName_getD g.resource, show g.resource.getD default = default from hresource]
      rfl
  | some r =>
    have hkept : keepConvertible r.attributes = _ := Converts.keepConvertible hresource
    refine ⟨{ resource := some ⟨(g.resource.getD default).attributes, r.droppedAttributes⟩,
              scopes := scopes', schemaUrl }, ?_, ?_, hsame⟩
    · simp only [takeResource, htaken, hkept, Losses.drop_zero]
    · rw [← serviceName_getD g.resource]
      exact serviceName_of_attributes rfl

/-- Groups by resource are taken without a loss, by induction on them. -/
theorem takeResources_eq (htake : TakesAll shape same takeItems) {gs : List (ResourceGroup α)}
    {fs : List ResourceGroupForm} (h : List.Forall₂ (ResourceGroupGood shape) gs fs)
    (l : Losses) : ∃ gs', takeResources takeItems fs l = (gs', l) ∧
      List.Forall₂ (SameResourceGroup same) gs gs' := by
  induction h with
  | nil => exact ⟨[], rfl, .nil⟩
  | cons hfirst _ ih =>
    obtain ⟨g', hg', hsame⟩ := takeResource_eq htake hfirst l
    obtain ⟨gs', hgs', hall⟩ := ih
    refine ⟨g' :: gs', ?_, .cons hsame hall⟩
    simp only [takeResources, hg', hgs']

/-! ## Requests -/

/-- Whether the items of exports, in order, are the same and of the same services. -/
def SameItems (same : α → α → Prop) (e e' : Export α) : Prop :=
  List.Forall₂ (fun p p' => p.1 = p'.1 ∧ same p.2 p'.2) e.items e'.items

/-- Groups with the same services and items give exports with the same items. -/
theorem sameItems_of_groups {e e' : Export α}
    (h : List.Forall₂ (SameResourceGroup same) e.resources e'.resources) :
    SameItems same e e' := by
  -- items are listed by resources and scopes, so they correspond if these do
  refine List.rel_flatMap h fun r r' hr => List.rel_flatMap hr.2 fun s s' hs => ?_
  exact List.rel_map (fun _ _ hi => ⟨hr.1, hi⟩) hs

/-- A request is read from its JSON form without a loss, and its items are the same. -/
theorem request_eq (hn : n.Apart) (htake : TakesAll shape same takeItems) {e : Export α}
    {body : List UInt8} {j : Json} (hread : Json.read body = .ok j)
    (hj : Fits (e.shape n shape) Json.maxLevels j) :
    ∃ e', request n takeItems body = .ok ⟨e', {}⟩ ∧ SameItems same e e' := by
  obtain ⟨groups, hgroups, hgood⟩ := envelopeForm_reads hn shape e j hj
  obtain ⟨resources, hresources, hsame⟩ := takeResources_eq htake hgood {}
  refine ⟨⟨resources⟩, ?_, sameItems_of_groups hsame⟩
  have hform : (do envelopeForm n Json.maxLevels (← Json.read body)) = .ok groups := by
    rw [hread]
    exact hgroups
  rw [request, hform]
  simp only [hresources]

/-- What is made of the items alone is the same for exports with the same items. -/
theorem SameItems.map_eq {β : Type} {e e' : Export α} (h : SameItems same e e')
    {f : String × α → β} (hf : ∀ service i i', same i i' → f (service, i) = f (service, i')) :
    e.items.map f = e'.items.map f := by
  refine List.forall₂_eq_eq_eq ▸ List.rel_map ?_ h
  rintro ⟨service, i⟩ ⟨service', i'⟩ ⟨hservice, hi⟩
  obtain rfl : service = service' := hservice
  exact hf service i i' hi

end Envelope

theorem SameItems.items_eq {α : Type} {e e' : Export α} (h : SameItems Eq e e') :
    e.items = e'.items := by
  have hid := h.map_eq (f := id) fun service i i' hi => congrArg (Prod.mk service) hi
  rwa [List.map_id, List.map_id] at hid

/-- All spans are taken, each up to an empty status. -/
theorem takesAll_span : TakesAll Span.shape SameSpan fun l vs => l.take span vs :=
  fun _ _ hvs l => take_span hvs l

/-- All metrics are taken, as they are. -/
theorem takesAll_metric : TakesAll Metric.shape Eq takeMetrics :=
  fun items _ hvs l => ⟨items, takeMetrics_eq hvs l, List.forall₂_eq_eq_eq ▸ rfl⟩

/-- All log records are taken, as they are. -/
theorem takesAll_logRecord : TakesAll LogRecord.shape Eq fun l vs => l.take logRecord vs :=
  fun items _ hvs l => ⟨items, take_logRecord hvs l, List.forall₂_eq_eq_eq ▸ rfl⟩

end Telemetry.Otlp.FromJson

namespace Telemetry.Otlp

open FromJson

/-- **Both forms of a request mean the same.** A text in JSON that looks like a request, with its
members in any order, defaults left out or written, and numbers in any of the forms that are
allowed, is read without a loss. What is read is decoded as the request itself is, whenever it is
received. -/
theorem json_decodes_like_wire {r : Request} {body : List UInt8} {j : Json}
    (hread : Json.read body = .ok j) (hrenders : Json.Renders r.shape j)
    (hwithin : j.within Json.maxLevels = true) :
    ∃ r', Request.ofJson r.kind body = .ok (r', {}) ∧
      ∀ received, r'.decode received = r.decode received := by
  have hfits : Json.Fits r.shape Json.maxLevels j := ⟨Nat.le_refl _, hwithin, hrenders⟩
  -- the envelopes are one form with three namings; only what the items are differs
  cases r with
  | traces e =>
    obtain ⟨e', he', hsame⟩ := request_eq traceNaming_apart takesAll_span hread hfits
    refine ⟨.traces e', ?_, fun received => ?_⟩
    · simp only [Request.ofJson, Request.kind, FromJson.traces, he', Except.map]
    -- spans may differ in an empty status, which no record shows
    · refine congrArg Decoded.ofResults (hsame.map_eq fun service s s' hs => ?_).symm
      exact congrArg (Except.map fun s => [Record.span s]) (hs service).symm
  | metrics e =>
    obtain ⟨e', he', hsame⟩ := request_eq metricNaming_apart takesAll_metric hread hfits
    refine ⟨.metrics e', ?_, fun received => ?_⟩
    · simp only [Request.ofJson, Request.kind, FromJson.metrics, he', Except.map]
    · simp only [Request.decode, decodeMetrics, hsame.items_eq]
  | logs e =>
    obtain ⟨e', he', hsame⟩ := request_eq logNaming_apart takesAll_logRecord hread hfits
    refine ⟨.logs e', ?_, fun received => ?_⟩
    · simp only [Request.ofJson, Request.kind, FromJson.logs, he', Except.map]
    · simp only [Request.decode, decodeLogs, hsame.items_eq]

/-- A warning with a time, a body and a trace. -/
def warning : LogRecord where
  time := 7
  severityNumber := 13
  body := .string "disk"
  traceId := [10]

/-- The only scope of an export of the warning. -/
def warningScopes : List (ScopeGroup LogRecord) := [{ items := [warning] }]

/-- A text that looks like this export: the time is a text, the severity is a name, and the digits
of the trace are upper case. -/
def warningText : String :=
  "\x7b\"resourceLogs\":[\x7b\"scopeLogs\":[\x7b\"logRecords\":[\x7b\"timeUnixNano\":\"7\"," ++
    "\"severityNumber\":\"SEVERITY_NUMBER_WARN\",\"body\":\x7b\"stringValue\":\"disk\"\x7d," ++
    "\"traceId\":\"0A\"\x7d]\x7d]\x7d]\x7d"

/-- The record in this text. -/
def warningRecord : Json :=
  .object [("timeUnixNano", .string "7"), ("severityNumber", .string "SEVERITY_NUMBER_WARN"),
    ("body", .object [("stringValue", .string "disk")]), ("traceId", .string "0A")]

/-- The value of this text. -/
def warningValue : Json :=
  .object [("resourceLogs", .array [.object [("scopeLogs", .array [.object
    [("logRecords", .array [warningRecord])]])]])]

/-- The record looks like the warning: its four members are among the nine that a log record has,
and the others of the warning are defaults. -/
theorem warningRecord_renders : Json.Renders warning.shape warningRecord := by
  have htime : Text.Integer.IsDecimal "7".toList 7 := Text.Integer.isDecimal_toString 7
  have htrace : Text.Hex.IsHex "0A".toList [10] := by
    unfold Text.Hex.IsHex
    decide
  have hbody : Json.Renders warning.body.shape (.object [("stringValue", .string "disk")]) :=
    .single ("stringValue", False, .text "disk") List.mem_cons_self (.scalar rfl rfl)
      fun g hg => .inl (List.mem_singleton.1 hg)
  refine .object (by decide) ?_ (fun f hf v hv => ?_) ?_
  · simp [warning, LogRecord.fields, logRecordNames, unsigned64Field, enumField, hexField]
  · simp only [warning, LogRecord.fields, unsigned64Field, enumField, textField, listField,
      unsigned32Field, hexField, List.mem_cons, List.not_mem_nil, or_false] at hf
    -- a case for each member of a log record; those that are not there give no value
    rcases hf with rfl | rfl | rfl | rfl | rfl | rfl | rfl | rfl | rfl <;> simp at hv <;> subst hv
    · exact .scalar rfl (.inr ⟨"7", rfl, htime⟩)
    · exact .scalar rfl (.inr ⟨"SEVERITY_NUMBER_WARN", rfl, by decide⟩)
    · exact hbody
    · exact .scalar rfl ⟨"0A", rfl, htrace⟩
  · simp [warning, LogRecord.fields, unsigned64Field, enumField, textField, listField,
      unsigned32Field, hexField]

/-- The whole value looks like the export, with one scope in one resource, neither of which is
written. -/
theorem warningValue_renders :
    Json.Renders (Request.logs ⟨[{ scopes := warningScopes }]⟩).shape warningValue := by
  have hscopes :
      Json.Renders (.array (warningScopes.map (ScopeGroup.shape logNaming LogRecord.shape)))
        (.array [.object [("logRecords", .array [warningRecord])]]) := by
    refine .singleton (.single (listField "logRecords" LogRecord.shape [warning]) ?_
      (.singleton warningRecord_renders) ?_)
    · exact List.mem_cons_of_mem _ List.mem_cons_self
    · simp [messageField, logNaming, listField, textField]
  refine .single (listField "resourceLogs" _ _) List.mem_cons_self (.singleton ?_)
    fun g hg => .inl (List.mem_singleton.1 hg)
  refine .single (listField "scopeLogs" _ warningScopes) ?_ hscopes ?_
  · exact List.mem_cons_of_mem _ List.mem_cons_self
  · simp [messageField, logNaming, listField, textField]

/-- The theorem for the text above, which the reader takes to be that value. -/
theorem warning_decodes_alike :
    ∃ r', Request.ofJson .logs (Text.Utf8.encode warningText.toList) = .ok (r', {}) ∧
      ∀ received, r'.decode received = decodeLogs ⟨[{ scopes := warningScopes }]⟩ received := by
  have hread : Json.read (Text.Utf8.encode warningText.toList) = .ok warningValue :=
    Json.read_of_readsAs (by decide +kernel)
  exact json_decodes_like_wire (r := .logs ⟨[{ scopes := warningScopes }]⟩) hread
    warningValue_renders (by decide)

end Telemetry.Otlp
