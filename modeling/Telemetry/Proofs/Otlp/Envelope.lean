import Telemetry.Proofs.Json.Passage
import Telemetry.Proofs.Otlp.Losses
import Telemetry.Proofs.Otlp.Rendering

/-!
The places of an envelope: its groups by resource and by scope, their attributes, and the items.

For each record of the envelope there is one fact a member that leads on; it says that the other
members do not touch it. Put together they say what an envelope is read to, whatever stands at a
place: what is read there is put into the groups around it, and nothing else depends on it.
-/

set_option autoImplicit false

namespace Telemetry.Otlp.FromJson

open Json (Fault Frame Place Step Through)
open Json.Decoder (Leads text list plain optional list_leads record_leads)

/-! ## Records of the envelope -/

/-- Whether the names by which the signals differ are none of those that they share. -/
structure Naming.Apart (n : Naming) : Prop where
  items_ne_scope : n.items ≠ "scope"
  items_ne_schemaUrl : n.items ≠ "schemaUrl"
  scopes_ne_resource : n.scopes ≠ "resource"
  scopes_ne_schemaUrl : n.scopes ≠ "schemaUrl"

/-- The members that the envelope of spans looks for have different names. -/
theorem traceNaming_apart : traceNaming.Apart := by
  constructor <;> decide

/-- The members that the envelope of metrics looks for have different names. -/
theorem metricNaming_apart : metricNaming.Apart := by
  constructor <;> decide

/-- The members that the envelope of log records looks for have different names. -/
theorem logNaming_apart : logNaming.Apart := by
  constructor <;> decide

/-- The names are apart for every kind of record, which is what the paths below need. -/
theorem naming_apart (kind : RecordKind) : kind.naming.Apart :=
  match kind with
  | .metrics => metricNaming_apart
  | .traces => traceNaming_apart
  | .logs => logNaming_apart

variable {n : Naming}

/-- The names of the members of a group by resource. -/
def resourceGroupNames (n : Naming) : List String := ["resource", n.scopes, "schemaUrl"]

/-- The names of the members of a group by scope. -/
def scopeGroupNames (n : Naming) : List String := ["scope", n.items, "schemaUrl"]

/-- From an envelope to its groups by resource: it is nothing but them. -/
theorem envelopeForm_leads (n : Naming) :
    Leads (envelopeForm n) [.member [n.resources] n.resources] (list (resourceGroupForm n))
      fun f => ∃ _ : List ResourceGroupForm, f = fun gs => gs := by
  refine record_leads ⟨?_, List.mem_singleton_self _, ?_, ?_⟩ 0 _
  · exact List.pairwise_singleton _ _
  · intro levels _ v
    cases list (resourceGroupForm n) levels v <;> rfl
  · intro _ _ _ name _ hname hne
    exact absurd (List.mem_singleton.1 hname) hne

/-- From a group by resource to the resource. Its scopes and the address of its schema stay as
they are. -/
theorem resourceGroupForm_leads_resource (hn : n.Apart) :
    Leads (resourceGroupForm n) [.member (resourceGroupNames n) "resource"] (optional resourceForm)
      fun f => ∃ g : ResourceGroupForm, f = fun r => { g with resource := r } := by
  refine record_leads ⟨?_, List.mem_cons_self, ?_, ?_⟩ 0 _
  -- the three names are different, so a member is looked up under one of them only
  · simp [hn.scopes_ne_schemaUrl, Ne.symm hn.scopes_ne_resource]
  · intro levels g v
    cases optional resourceForm levels v <;> rfl
  · intro levels g r name v _ hne
    rw [if_neg hne, if_neg hne]
    split
    · cases text levels v <;> rfl
    · cases list (scopeGroupForm n) levels v <;> rfl

/-- From a group by resource to its groups by scope. The resource stays as it is. -/
theorem resourceGroupForm_leads_scopes (hn : n.Apart) :
    Leads (resourceGroupForm n) [.member (resourceGroupNames n) n.scopes] (list (scopeGroupForm n))
      fun f => ∃ g : ResourceGroupForm, f = fun ss => { g with scopes := ss } := by
  refine record_leads ⟨?_, List.mem_cons_of_mem _ List.mem_cons_self, ?_, ?_⟩ 0 _
  · simp [hn.scopes_ne_schemaUrl, Ne.symm hn.scopes_ne_resource]
  · intro levels g v
    rw [if_neg hn.scopes_ne_resource, if_neg hn.scopes_ne_schemaUrl]
    cases list (scopeGroupForm n) levels v <;> rfl
  · intro levels g ss name v hname hne
    -- the members besides the scopes are the resource and the address of the schema
    simp only [List.mem_cons, List.not_mem_nil, or_false, hne, false_or] at hname
    rcases hname with rfl | rfl
    · cases optional resourceForm levels v <;> rfl
    · cases text levels v <;> rfl

/-- From a group by scope to the scope. Its items stay as they are. -/
theorem scopeGroupForm_leads_scope (hn : n.Apart) :
    Leads (scopeGroupForm n) [.member (scopeGroupNames n) "scope"] (optional scopeForm)
      fun f => ∃ g : ScopeGroupForm, f = fun s => { g with scope := s } := by
  refine record_leads ⟨?_, List.mem_cons_self, ?_, ?_⟩ 0 _
  · simp [hn.items_ne_schemaUrl, Ne.symm hn.items_ne_scope]
  · intro levels g v
    cases optional scopeForm levels v <;> rfl
  · intro levels g s name v _ hne
    rw [if_neg hne, if_neg hne]
    split
    · cases text levels v <;> rfl
    · cases list plain levels v <;> rfl

/-- From a group by scope to its items, which are taken as they stand and read later. -/
theorem scopeGroupForm_leads_items (hn : n.Apart) :
    Leads (scopeGroupForm n) [.member (scopeGroupNames n) n.items] (list plain)
      fun f => ∃ g : ScopeGroupForm, f = fun vs => { g with items := vs } := by
  refine record_leads ⟨?_, List.mem_cons_of_mem _ List.mem_cons_self, ?_, ?_⟩ 0 _
  · simp [hn.items_ne_schemaUrl, Ne.symm hn.items_ne_scope]
  · intro levels g v
    rw [if_neg hn.items_ne_scope, if_neg hn.items_ne_schemaUrl]
    cases list plain levels v <;> rfl
  · intro levels g vs name v hname hne
    -- the members besides the items are the scope and the address of the schema
    simp only [List.mem_cons, List.not_mem_nil, or_false, hne, false_or] at hname
    rcases hname with rfl | rfl
    · cases optional scopeForm levels v <;> rfl
    · cases text levels v <;> rfl

/-- The names of the members of a resource. -/
def resourceNames : List String := ["attributes", "droppedAttributesCount"]

/-- The names of the members of a scope. -/
def scopeNames : List String := ["name", "version", "attributes"]

/-- From a resource to its attributes. -/
theorem resourceForm_leads_attributes :
    Leads resourceForm [.member resourceNames "attributes"] (list keyValue)
      fun f => ∃ r : ResourceForm, f = fun kvs => { r with attributes := kvs } := by
  refine record_leads ⟨by decide, by decide, ?_, ?_⟩ 0 _
  · intro levels r v
    cases list keyValue levels v <;> rfl
  · intro levels r kvs name v hname hne
    -- the only other member is the number of attributes that were dropped before
    simp only [List.mem_cons, List.not_mem_nil, or_false, hne, false_or] at hname
    subst hname
    cases Json.Decoder.unsigned32 levels v <;> rfl

/-- From a scope to its attributes. -/
theorem scopeForm_leads_attributes :
    Leads scopeForm [.member scopeNames "attributes"] (list keyValue)
      fun f => ∃ s : ScopeForm, f = fun kvs => { s with attributes := kvs } := by
  refine record_leads ⟨by decide, by decide, ?_, ?_⟩ 0 _
  · intro levels s v
    cases list keyValue levels v <;> rfl
  · intro levels s kvs name v hname hne
    -- the other members are a name and a version, both texts
    simp only [List.mem_cons, List.not_mem_nil, or_false, hne] at hname
    rcases hname with rfl | rfl
    · cases text levels v <;> rfl
    · cases text levels v <;> rfl

/-! ## Groups

The way from an export to its groups, and from a group to its scopes, is the same for all signals
but for the names of the members. -/

/-- The steps to a group by resource. -/
def groupPath (n : Naming) : List Step := [.member [n.resources] n.resources, .item]

/-- The steps to a group by scope. -/
def scopePath (n : Naming) : List Step :=
  groupPath n ++ [.member (resourceGroupNames n) n.scopes, .item]

/-- The steps to the attributes of a resource. -/
def resourceAttributesPath (n : Naming) : List Step :=
  groupPath n ++ [.member (resourceGroupNames n) "resource", .member resourceNames "attributes"]

/-- The steps to the attributes of a scope. -/
def scopeAttributesPath (n : Naming) : List Step :=
  scopePath n ++ [.member (scopeGroupNames n) "scope", .member scopeNames "attributes"]

/-- The steps to an item. -/
def itemPath (n : Naming) : List Step :=
  scopePath n ++ [.member (scopeGroupNames n) n.items, .item]

/-- The whole way to a group by resource: what is read there is put among the other groups. -/
theorem leads_group (n : Naming) :
    Leads (envelopeForm n) (groupPath n) (resourceGroupForm n)
      fun f => ∃ front back, f = fun g => front ++ g :: back := by
  refine ((envelopeForm_leads n).trans (list_leads _)).imp ?_
  rintro _ ⟨_, _, ⟨_, rfl⟩, ⟨front, back, rfl⟩, rfl⟩
  exact ⟨front, back, rfl⟩

/-- The whole way to a group by scope, through the group by resource that it is in. -/
theorem leads_scope (hn : n.Apart) :
    Leads (envelopeForm n) (scopePath n) (scopeGroupForm n) fun f =>
      ∃ (front : List ResourceGroupForm) (g : ResourceGroupForm)
        (before after : List ScopeGroupForm) (back : List ResourceGroupForm),
        f = fun s => front ++ { g with scopes := before ++ s :: after } :: back := by
  refine ((leads_group n).trans
    ((resourceGroupForm_leads_scopes hn).trans (list_leads _))).imp ?_
  rintro _ ⟨_, _, ⟨front, back, rfl⟩, ⟨_, _, ⟨g, rfl⟩, ⟨before, after, rfl⟩, rfl⟩, rfl⟩
  exact ⟨front, g, before, after, back, rfl⟩

/-! ## Attributes and items -/

/-- The whole way to the attributes of a resource. A fault on this way refuses the body, because
the resource is read together with the envelope. -/
theorem leads_resourceAttributes (hn : n.Apart) :
    Leads (envelopeForm n) (resourceAttributesPath n) (list keyValue) fun f =>
      ∃ (front : List ResourceGroupForm) (g : ResourceGroupForm) (r : ResourceForm)
        (back : List ResourceGroupForm),
        f = fun kvs =>
          front ++ { g with resource := some { r with attributes := kvs } } :: back := by
  refine ((leads_group n).trans ((resourceGroupForm_leads_resource hn).trans
    resourceForm_leads_attributes.optional)).imp ?_
  rintro _ ⟨_, _, ⟨front, back, rfl⟩, ⟨_, _, ⟨g, rfl⟩, ⟨_, ⟨r, rfl⟩, rfl⟩, rfl⟩, rfl⟩
  exact ⟨front, g, r, back, rfl⟩

/-- The whole way to the attributes of a scope, read together with the envelope too. -/
theorem leads_scopeAttributes (hn : n.Apart) :
    Leads (envelopeForm n) (scopeAttributesPath n) (list keyValue) fun f =>
      ∃ (front : List ResourceGroupForm) (g : ResourceGroupForm) (before : List ScopeGroupForm)
        (s : ScopeGroupForm) (scope : ScopeForm) (after : List ScopeGroupForm)
        (back : List ResourceGroupForm),
        f = fun kvs => front ++ { g with
          scopes := before ++
            { s with scope := some { scope with attributes := kvs } } :: after } :: back := by
  refine ((leads_scope hn).trans ((scopeGroupForm_leads_scope hn).trans
    scopeForm_leads_attributes.optional)).imp ?_
  rintro _ ⟨_, _, ⟨front, g, before, after, back, rfl⟩, ⟨_, _, ⟨s, rfl⟩, ⟨_, ⟨scope, rfl⟩, rfl⟩,
    rfl⟩, rfl⟩
  exact ⟨front, g, before, s, scope, after, back, rfl⟩

/-- Whether groups are made of an item by putting it among others. -/
def PutsItem (f : Json → List ResourceGroupForm) : Prop :=
  ∃ (front : List ResourceGroupForm) (g : ResourceGroupForm) (before : List ScopeGroupForm)
    (s : ScopeGroupForm) (items items' : List Json) (after : List ScopeGroupForm)
    (back : List ResourceGroupForm),
    f = fun v => front ++ { g with
      scopes := before ++ { s with items := items ++ v :: items' } :: after } :: back

/-- The whole way to an item. The envelope takes it as a plain value (`plain`), so no item can be
refused here. -/
theorem leads_item (hn : n.Apart) : Leads (envelopeForm n) (itemPath n) plain PutsItem := by
  refine ((leads_scope hn).trans ((scopeGroupForm_leads_items hn).trans (list_leads _))).imp ?_
  rintro _ ⟨_, _, ⟨front, g, before, after, back, rfl⟩, ⟨_, _, ⟨s, rfl⟩, ⟨items, items', rfl⟩, rfl⟩,
    rfl⟩
  exact ⟨front, g, before, s, items, items', after, back, rfl⟩

/-! ## Points of metrics -/

/-- The name of the member of a metric that has data of a kind. -/
def MetricKind.member : MetricKind → String
  | .gauge => "gauge"
  | .sum => "sum"
  | .histogram => "histogram"
  | .exponential => "exponentialHistogram"
  | .summary => "summary"

/-- Puts data of a kind into a metric. -/
def MetricForm.put (m : MetricForm) (d : Option PointsForm) : MetricKind → MetricForm
  | .gauge => { m with gauge := d }
  | .sum => { m with sum := d }
  | .histogram => { m with histogram := d }
  | .exponential => { m with exponential := d }
  | .summary => { m with summary := d }

/-- From a metric to its data of one kind. The data of the other kinds stays as it is. -/
theorem metricForm_leads (k : MetricKind) :
    Leads metricForm [.member metricNames k.member] (optional pointsForm)
      fun f => ∃ m : MetricForm, f = fun d => m.put d k := by
  cases k <;> refine record_leads ⟨by decide, by decide, ?_, ?_⟩ 0 _
  all_goals intro levels m
  case' gauge.refine_1 | sum.refine_1 | histogram.refine_1 | exponential.refine_1 |
      summary.refine_1 =>
    intro v
    cases optional pointsForm levels v <;> rfl
  -- each other member is a text or data of another kind
  all_goals
    intro d name v hname hne
    simp only [metricNames, List.mem_cons, List.not_mem_nil, or_false] at hname
    rcases hname with rfl | rfl | rfl | rfl | rfl | rfl | rfl | rfl <;>
      first
      | exact absurd rfl hne
      | cases text levels v <;> rfl
      | cases optional pointsForm levels v <;> rfl

/-- From data of one kind to its points, taken as they stand. -/
theorem pointsForm_leads :
    Leads pointsForm [.member pointsNames "dataPoints"] (list plain)
      fun f => ∃ d : PointsForm, f = fun vs => { d with points := vs } := by
  refine record_leads ⟨by decide, by decide, ?_, ?_⟩ 0 _
  · intro levels d v
    cases list plain levels v <;> rfl
  · intro levels d vs name v hname hne
    simp only [List.mem_cons, List.not_mem_nil, or_false, hne, false_or] at hname
    rcases hname with rfl | rfl
    · cases enumForm levels v <;> rfl
    · cases Json.Decoder.bool levels v <;> rfl

/-- The steps to a point of a metric. -/
def pointPath (k : MetricKind) : List Step :=
  [.member metricNames k.member, .member pointsNames "dataPoints", .item]

/-- The whole way from a metric to one of its points. -/
theorem leads_point (k : MetricKind) :
    Leads metricForm (pointPath k) plain fun f =>
      ∃ (m : MetricForm) (d : PointsForm) (points points' : List Json),
        f = fun v => m.put (some { d with points := points ++ v :: points' }) k := by
  refine ((metricForm_leads k).trans
    (pointsForm_leads.trans (list_leads _)).optional).imp ?_
  rintro _ ⟨_, _, ⟨m, rfl⟩, ⟨_, ⟨_, _, ⟨d, rfl⟩, ⟨points, points', rfl⟩, rfl⟩, rfl⟩, rfl⟩
  exact ⟨m, d, points, points', rfl⟩

end Telemetry.Otlp.FromJson
