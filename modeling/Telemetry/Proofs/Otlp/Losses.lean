import Mathlib.Algebra.BigOperators.Group.List.Basic
import Mathlib.Algebra.GroupWithZero.Nat
import Telemetry.Otlp.Request

/-!
Losses add up.

Converting an export hands one count of losses from item to item, through scopes and resources.
What each item does to it is to add something of its own, whatever has been counted before. So
losses are a monoid: the counts add, and of two errors the first one stays. From that it follows
that a group is converted on its own (`TakesEach.request_eq`), and that its losses are the sum of
those in it.
-/

set_option autoImplicit false

namespace Telemetry.Otlp.FromJson

open Json (Fault)

attribute [ext] Losses

namespace Losses

/-! ## The monoid of losses

Losses add up: counts are added and the first error is the earlier one. So what is lost of a list
is a sum, and the passes over an export, written with an accumulator, are compared with sums. -/

instance : Zero Losses := ⟨{}⟩

instance : Add Losses :=
  ⟨fun l l' => ⟨l.rejected + l'.rejected, l.firstError <|> l'.firstError,
    l.droppedAttributes + l'.droppedAttributes⟩⟩

@[simp] theorem rejected_zero : (0 : Losses).rejected = 0 := rfl

@[simp] theorem firstError_zero : (0 : Losses).firstError = none := rfl

@[simp] theorem droppedAttributes_zero : (0 : Losses).droppedAttributes = 0 := rfl

@[simp] theorem rejected_add (l l' : Losses) :
    (l + l').rejected = l.rejected + l'.rejected := rfl

/-- Of two errors the one of the earlier losses stays. -/
@[simp] theorem firstError_add (l l' : Losses) :
    (l + l').firstError = (l.firstError <|> l'.firstError) := rfl

@[simp] theorem droppedAttributes_add (l l' : Losses) :
    (l + l').droppedAttributes = l.droppedAttributes + l'.droppedAttributes := rfl

instance : AddMonoid Losses where
  add_assoc l l' l'' := by
    ext1
    · exact Nat.add_assoc _ _ _
    · cases h : l.firstError <;> simp [h]
    · exact Nat.add_assoc _ _ _
  zero_add l := by ext1 <;> simp
  add_zero l := by ext1 <;> simp
  nsmul := nsmulRec

/-- What a list of losses rejects is the sum of what each of them does. -/
theorem rejected_sum (ls : List Losses) : ls.sum.rejected = (ls.map (·.rejected)).sum := by
  induction ls with
  | nil => rfl
  | cons l ls ih => rw [List.sum_cons, rejected_add, ih, List.map_cons, List.sum_cons]

/-- The losses of items left out for one reason. -/
def ofFault (count : Nat) (fault : DecodeFault) : Losses := ⟨count, some (.decode fault), 0⟩

/-- The losses of attributes left out. -/
def ofAttributes (count : Nat) : Losses := ⟨0, none, count⟩

/-- Rejecting items adds losses, and reports their fault only if there was none before. -/
theorem reject_eq_add (l : Losses) (count : Nat) (fault : DecodeFault) :
    l.reject count fault = l + ofFault count fault := rfl

/-- Dropping attributes adds losses without an error. -/
theorem drop_eq_add (l : Losses) (count : Nat) : l.drop count = l + ofAttributes count := by
  ext1 <;> simp [drop, ofAttributes]

/-- It makes no difference when attributes are left out. -/
theorem ofAttributes_add_comm (count : Nat) (l : Losses) :
    ofAttributes count + l = l + ofAttributes count := by
  ext1 <;> simp [ofAttributes, Nat.add_comm]

theorem ofAttributes_add (count count' : Nat) :
    ofAttributes count + ofAttributes count' = ofAttributes (count + count') := by
  ext1 <;> simp [ofAttributes]

end Losses

/-! ## Items

A way to take items goes through a list and keeps what converts. It is described by the fate of
each item: what becomes of it, and what is lost by it. -/

/-- What becomes of an item: it converts, or it is lost. -/
abbrev Fate (α : Type) := Option α × Losses

/-- The fate of an item that converts as a whole or not at all. -/
def fateOf {α : Type} (convert : Json → Except DecodeFault α) (v : Json) : Fate α :=
  match convert v with
  | .ok a => (some a, 0)
  | .error e => (none, .ofFault 1 e)

/-- An item that converts as a whole becomes what it converts to. -/
theorem fst_fateOf {α : Type} (convert : Json → Except DecodeFault α) (v : Json) :
    (fateOf convert v).1 = (convert v).toOption := by
  rw [fateOf]
  cases convert v <;> rfl

/-- Whether items are taken one by one, each with its own fate. -/
def TakesEach {α : Type} (take : Losses → List Json → List α × Losses) (fate : Json → Fate α) :
    Prop :=
  ∀ l vs, take l vs = (vs.filterMap fun v => (fate v).1, l + (vs.map fun v => (fate v).2).sum)

/-- Items that convert as a whole are taken one by one. -/
theorem takesEach_take {α : Type} (convert : Json → Except DecodeFault α) :
    TakesEach (fun l vs => l.take convert vs) (fateOf convert) := by
  intro l vs
  show l.take convert vs = _
  -- on the items, with any losses before them: each adds its own and hands on the sum
  induction vs generalizing l with
  | nil => exact Prod.ext rfl (add_zero l).symm
  | cons v vs ih =>
    rw [Losses.take, List.filterMap_cons, List.map_cons, List.sum_cons, fateOf]
    cases convert v with
    | ok a =>
      simp only [ih, zero_add]
    | error e =>
      simp only [ih, Losses.reject_eq_add, add_assoc]

/-! ## Data of metrics

The five kinds of data differ in the form of their points and in whether they have a temporality.
All else is one definition, which is what the lemmas are about. -/

/-- The kinds of data. -/
inductive MetricKind where
  | gauge
  | sum
  | histogram
  | exponential
  | summary

namespace MetricKind

/-- Whether the temporality of data of a kind counts. -/
def IsTemporal : MetricKind → Bool
  | .gauge | .summary => false
  | .sum | .histogram | .exponential => true

/-- The data made of those points that convert. -/
def data (temporality : Int32) (d : PointsForm) : MetricKind → MetricData
  | .gauge => .gauge (d.points.filterMap fun v => (numberPoint v).toOption)
  | .sum => .sum (d.points.filterMap fun v => (numberPoint v).toOption) temporality d.monotonic
  | .histogram => .histogram (d.points.filterMap fun v => (histogramPoint v).toOption) temporality
  | .exponential =>
    .exponential (d.points.filterMap fun v => (exponentialPoint v).toOption) temporality
  | .summary => .summary (d.points.filterMap fun v => (summaryPoint v).toOption)

/-- The losses of one point. -/
def lost (v : Json) : MetricKind → Losses
  | .gauge | .sum => (fateOf numberPoint v).2
  | .histogram => (fateOf histogramPoint v).2
  | .exponential => (fateOf exponentialPoint v).2
  | .summary => (fateOf summaryPoint v).2

end MetricKind

namespace MetricForm

/-- The data that counts, with its kind. -/
def selected (m : MetricForm) : Option (MetricKind × PointsForm) :=
  match m.gauge, m.sum, m.histogram, m.exponential, m.summary with
  | some d, _, _, _, _ => some (.gauge, d)
  | _, some d, _, _, _ => some (.sum, d)
  | _, _, some d, _, _ => some (.histogram, d)
  | _, _, _, some d, _ => some (.exponential, d)
  | _, _, _, _, some d => some (.summary, d)
  | _, _, _, _, _ => none

/-- The temporality that counts is that of the data that counts, if data of this kind has one. -/
theorem temporal_eq (m : MetricForm) :
    m.temporal = m.selected.bind fun (k, d) => if k.IsTemporal then some d else none := by
  obtain ⟨name, description, unit, gauge, sum, histogram, exponential, summary⟩ := m
  -- the first kind that is there decides on both sides
  cases gauge <;> cases sum <;> cases histogram <;> cases exponential <;> cases summary <;> rfl

/-- Data whose temporality counts is the data that counts. -/
theorem selected_of_temporal {m : MetricForm} {d : PointsForm} (h : m.temporal = some d) :
    ∃ k, m.selected = some (k, d) := by
  rw [temporal_eq] at h
  obtain ⟨⟨k, d'⟩, hselected, hd⟩ := Option.bind_eq_some_iff.1 h
  replace hd : (if k.IsTemporal = true then some d' else none) = some d := hd
  split at hd
  next => exact ⟨k, by rw [hselected, Option.some.inj hd]⟩
  next => cases hd

/-- The losses of the points of a metric. -/
def pointLosses (m : MetricForm) : Losses :=
  (m.selected.map fun (k, d) => (d.points.map fun v => k.lost v).sum).getD 0

/-- The data of a metric is taken point by point. -/
theorem takeData_eq (m : MetricForm) (temporality : Int32) (l : Losses) :
    m.takeData temporality l =
      (m.selected.map fun (k, d) => k.data temporality d, l + m.pointLosses) := by
  have htake {α : Type} (convert : Json → Except DecodeFault α) (d : PointsForm) :
      l.take convert d.points = (d.points.filterMap fun v => (convert v).toOption,
        l + (d.points.map fun v => (fateOf convert v).2).sum) := by
    rw [← funext (fst_fateOf convert)]
    exact takesEach_take convert l d.points
  obtain ⟨name, description, unit, gauge, sum, histogram, exponential, summary⟩ := m
  rw [takeData, pointLosses]
  -- the first kind that is there is the one taken, as in the definition of the selected data
  match gauge, sum, histogram, exponential, summary with
  | some d, _, _, _, _ => simp only [htake]; rfl
  | none, some d, _, _, _ => simp only [htake]; rfl
  | none, none, some d, _, _ => simp only [htake]; rfl
  | none, none, none, some d, _ => simp only [htake]; rfl
  | none, none, none, none, some d => simp only [htake]; rfl
  | none, none, none, none, none => exact Prod.ext rfl (add_zero l).symm

/-- The number of points of the data that counts. -/
def size (m : MetricForm) : Nat := (m.selected.map fun (_, d) => d.points.length).getD 0

/-- The temporality of a metric, if there is none or it is known. -/
def temporality (m : MetricForm) : Except DecodeFault Int32 :=
  match m.temporal with
  | none => .ok 0
  | some d => d.temporality.resolve "aggregation temporality" temporalities

/-- The metric with those points that convert. -/
def converted (m : MetricForm) (temporality : Int32) : Metric where
  name := m.name
  description := m.description
  unit := m.unit
  data := m.selected.map fun (k, d) => k.data temporality d

/-- What becomes of a metric that has been read. -/
def fate (m : MetricForm) : Fate Metric :=
  match m.temporality with
  | .error e => (none, .ofFault (max m.size 1) e)
  | .ok temporality => (some (m.converted temporality), m.pointLosses)

/-- A metric is taken as its fate says, whatever was lost before it. -/
theorem take_eq (m : MetricForm) (l : Losses) : m.take l = (m.fate.1, l + m.fate.2) := by
  rw [MetricForm.take, fate, temporality]
  cases htemporal : m.temporal with
  | none =>
    simp only [takeData_eq]
    rfl
  | some d =>
    -- the data that has a temporality is the data that counts
    obtain ⟨k, hselected⟩ := selected_of_temporal htemporal
    have hsize : m.size = d.points.length := by rw [size, hselected]; rfl
    cases hresolve : d.temporality.resolve "aggregation temporality" temporalities with
    | error e =>
      simp only [hresolve, hsize, Losses.reject_eq_add, Option.map_some, Option.getD_some]
    | ok temporality =>
      simp only [hresolve, takeData_eq]
      rfl

end MetricForm

/-- What becomes of a plain value as a metric. -/
def metricFate (v : Json) : Fate Metric :=
  match metricForm Json.maxLevels v with
  | .error f => (none, .ofFault 1 (.malformedMetric f))
  | .ok m => m.fate

/-- Metrics are taken one by one. -/
theorem takesEach_takeMetrics : TakesEach takeMetrics metricFate := by
  intro l vs
  induction vs generalizing l with
  | nil => exact Prod.ext rfl (add_zero l).symm
  | cons v vs ih =>
    rw [takeMetrics, List.filterMap_cons, List.map_cons, List.sum_cons, metricFate]
    cases metricForm Json.maxLevels v with
    | error f =>
      simp only [ih, Losses.reject_eq_add, add_assoc]
    | ok m =>
      simp only [ih, m.take_eq, add_assoc]
      -- a metric may be lost though it could be read, if its temporality is unknown
      cases m.fate.1 <;> rfl

/-! ## Groups

What a group becomes and what is lost of it follow from the fates of its items and from its
attributes. The sums are reordered here, since attributes are dropped between items. -/

section Groups

variable {α : Type} (fate : Json → Fate α)

/-- A group by scope with those items and attributes that convert. -/
def ScopeGroupForm.converted (g : ScopeGroupForm) : ScopeGroup α where
  scope := g.scope.map fun s =>
    { name := s.name, version := s.version, attributes := (keepConvertible s.attributes).1 }
  items := g.items.filterMap fun v => (fate v).1
  schemaUrl := g.schemaUrl

/-- The losses of a group by scope. -/
def ScopeGroupForm.losses (g : ScopeGroupForm) : Losses :=
  (g.items.map fun v => (fate v).2).sum +
    .ofAttributes ((g.scope.map fun s => (keepConvertible s.attributes).2).getD 0)

/-- A group by resource with those items and attributes that convert. -/
def ResourceGroupForm.converted (g : ResourceGroupForm) : ResourceGroup α where
  resource := g.resource.map fun r =>
    { attributes := (keepConvertible r.attributes).1, droppedAttributes := r.droppedAttributes }
  scopes := g.scopes.map (ScopeGroupForm.converted fate)
  schemaUrl := g.schemaUrl

/-- The losses of a group by resource. -/
def ResourceGroupForm.losses (g : ResourceGroupForm) : Losses :=
  (g.scopes.map (ScopeGroupForm.losses fate)).sum +
    .ofAttributes ((g.resource.map fun r => (keepConvertible r.attributes).2).getD 0)

variable {fate} {takeItems : Losses → List Json → List α × Losses}

/-- A group by scope is converted on its own: its losses are added to those before it. -/
theorem TakesEach.takeScope_eq (h : TakesEach takeItems fate) (g : ScopeGroupForm) (l : Losses) :
    takeScope takeItems g l = (g.converted fate, l + g.losses fate) := by
  rw [takeScope, h, ScopeGroupForm.converted, ScopeGroupForm.losses]
  cases g.scope with
  | none => exact Prod.ext rfl (congrArg (l + ·) (add_zero _).symm)
  | some s =>
    simp only [Losses.drop_eq_add, add_assoc]
    rfl

/-- Groups by scope are converted one by one. -/
theorem TakesEach.takeScopes_eq (h : TakesEach takeItems fate) (gs : List ScopeGroupForm)
    (l : Losses) :
    takeScopes takeItems gs l =
      (gs.map (ScopeGroupForm.converted fate),
        l + (gs.map (ScopeGroupForm.losses fate)).sum) := by
  induction gs generalizing l with
  | nil => exact Prod.ext rfl (add_zero l).symm
  | cons g gs ih =>
    simp only [takeScopes, h.takeScope_eq, ih, List.map_cons, List.sum_cons, add_assoc]

/-- A group by resource is converted on its own. -/
theorem TakesEach.takeResource_eq (h : TakesEach takeItems fate) (g : ResourceGroupForm)
    (l : Losses) :
    takeResource takeItems g l = (g.converted fate, l + g.losses fate) := by
  rw [takeResource, h.takeScopes_eq, ResourceGroupForm.converted, ResourceGroupForm.losses]
  cases g.resource with
  | none => exact Prod.ext rfl (congrArg (l + ·) (add_zero _).symm)
  | some r =>
    simp only [Losses.drop_eq_add, add_assoc]
    rfl

/-- Groups by resource are converted one by one. -/
theorem TakesEach.takeResources_eq (h : TakesEach takeItems fate) (gs : List ResourceGroupForm)
    (l : Losses) :
    takeResources takeItems gs l =
      (gs.map (ResourceGroupForm.converted fate),
        l + (gs.map (ResourceGroupForm.losses fate)).sum) := by
  induction gs generalizing l with
  | nil => exact Prod.ext rfl (add_zero l).symm
  | cons g gs ih =>
    simp only [takeResources, h.takeResource_eq, ih, List.map_cons, List.sum_cons, add_assoc]

end Groups

/-- The plain values of all items, in order. -/
def rawItems (gs : List ResourceGroupForm) : List Json :=
  gs.flatMap fun g => g.scopes.flatMap (·.items)

/-- Where each loss has a part of its own and some attributes, all attributes may be counted in the
end. -/
theorem sum_eq_sum_add_ofAttributes {β : Type} {losses own : β → Losses}
    (h : ∀ b, ∃ n, losses b = own b + .ofAttributes n) (bs : List β) :
    ∃ n, (bs.map losses).sum = (bs.map own).sum + .ofAttributes n := by
  induction bs with
  | nil => exact ⟨0, rfl⟩
  | cons b bs ih =>
    obtain ⟨m, hm⟩ := h b
    obtain ⟨n, hn⟩ := ih
    refine ⟨m + n, ?_⟩
    -- the attributes of the first are moved behind the rest
    rw [List.map_cons, List.sum_cons, hm, hn, List.map_cons, List.sum_cons,
      ← Losses.ofAttributes_add, add_assoc, ← add_assoc (Losses.ofAttributes m),
      Losses.ofAttributes_add_comm, add_assoc, add_assoc]

/-- A sum over the parts of things is the sum of their sums. -/
theorem sum_map_flatMap {β γ M : Type} [AddMonoid M] (f : β → List γ) (g : γ → M)
    (bs : List β) :
    ((bs.flatMap f).map g).sum = (bs.map fun b => ((f b).map g).sum).sum := by
  rw [List.map_flatMap, List.flatMap, List.sum_flatten, List.map_map]
  rfl

/-- The losses of groups are those of their items, and attributes. -/
theorem sum_losses_eq {α : Type} (fate : Json → Fate α) (gs : List ResourceGroupForm) :
    ∃ n, (gs.map (ResourceGroupForm.losses fate)).sum =
      ((rawItems gs).map fun v => (fate v).2).sum + .ofAttributes n := by
  have hresource (g : ResourceGroupForm) : ∃ n, g.losses fate =
      ((g.scopes.flatMap (·.items)).map fun v => (fate v).2).sum + .ofAttributes n := by
    have hscope (s : ScopeGroupForm) : ∃ n, s.losses fate =
        (s.items.map fun v => (fate v).2).sum + .ofAttributes n := ⟨_, rfl⟩
    obtain ⟨n, hn⟩ := sum_eq_sum_add_ofAttributes hscope g.scopes
    rw [ResourceGroupForm.losses, hn, add_assoc, Losses.ofAttributes_add, sum_map_flatMap]
    exact ⟨_, rfl⟩
  rw [rawItems, sum_map_flatMap]
  exact sum_eq_sum_add_ofAttributes hresource gs

/-! ## Faults

The counts of losses are those of a list of faults. This list, in the order of the items, is what
the first error is taken from. -/

/-- The losses of items that are left out each for its own reason. -/
def Losses.ofFaults (fs : List DecodeFault) : Losses := ⟨fs.length, fs.head?.map .decode, 0⟩

namespace Losses

theorem ofFaults_nil : ofFaults [] = 0 := rfl

/-- Faults one after another are losses one after another, the first fault included. -/
theorem ofFaults_append (fs fs' : List DecodeFault) :
    ofFaults (fs ++ fs') = ofFaults fs + ofFaults fs' := by
  ext1
  · exact List.length_append
  · cases fs <;> rfl
  · rfl

/-- The losses of things are those of all their faults in order. -/
theorem sum_map_ofFaults {β : Type} (faults : β → List DecodeFault) (bs : List β) :
    (bs.map fun b => ofFaults (faults b)).sum = ofFaults (bs.flatMap faults) := by
  induction bs with
  | nil => rfl
  | cons b bs ih => rw [List.map_cons, List.sum_cons, ih, List.flatMap_cons, ofFaults_append]

/-- Items left out for one reason are as many faults that are the same. -/
theorem ofFault_eq_ofFaults {count : Nat} (h : 0 < count) (fault : DecodeFault) :
    ofFault count fault = ofFaults (List.replicate count fault) := by
  obtain ⟨count, rfl⟩ := Nat.exists_eq_succ_of_ne_zero (Nat.ne_of_gt h)
  ext1
  · exact List.length_replicate.symm
  · rfl
  · rfl

end Losses

/-- Why a plain value does not convert, if it does not. -/
def faultsOf {α : Type} (convert : Json → Except DecodeFault α) (v : Json) : List DecodeFault :=
  match convert v with
  | .ok _ => []
  | .error e => [e]

/-- A value has at most one reason not to convert. -/
theorem length_faultsOf_le {α : Type} (convert : Json → Except DecodeFault α) (v : Json) :
    (faultsOf convert v).length ≤ 1 := by
  rw [faultsOf]
  cases convert v <;> simp

/-- The losses of a value are its faults. -/
theorem snd_fateOf {α : Type} (convert : Json → Except DecodeFault α) (v : Json) :
    (fateOf convert v).2 = .ofFaults (faultsOf convert v) := by
  rw [fateOf, faultsOf]
  cases convert v <;> rfl

namespace MetricKind

/-- Why a plain value does not convert to a point of a kind, if it does not. -/
def faults (v : Json) : MetricKind → List DecodeFault
  | .gauge | .sum => faultsOf numberPoint v
  | .histogram => faultsOf histogramPoint v
  | .exponential => faultsOf exponentialPoint v
  | .summary => faultsOf summaryPoint v

/-- The losses of a point are its faults, whatever its kind. -/
theorem lost_eq_ofFaults (k : MetricKind) (v : Json) : k.lost v = .ofFaults (k.faults v) := by
  cases k <;> exact snd_fateOf _ v

end MetricKind

/-- Why points of a metric are left out: each that does not convert for its own reason, and all of
them, but at least one, if the temporality is unknown. -/
def MetricForm.faults (m : MetricForm) : List DecodeFault :=
  match m.temporality with
  | .error e => List.replicate (max m.size 1) e
  | .ok _ => (m.selected.map fun (k, d) => d.points.flatMap fun v => k.faults v).getD []

/-- Why a plain value is not a metric, or why points of it are left out. -/
def metricFaults (v : Json) : List DecodeFault :=
  match metricForm Json.maxLevels v with
  | .error f => [.malformedMetric f]
  | .ok m => m.faults

/-- The losses of the points of a metric are their faults, in order. -/
theorem MetricForm.pointLosses_eq_ofFaults (m : MetricForm) :
    m.pointLosses =
      .ofFaults ((m.selected.map fun (k, d) => d.points.flatMap fun v => k.faults v).getD []) := by
  rw [pointLosses]
  cases m.selected with
  | none => rfl
  | some p =>
    obtain ⟨k, d⟩ := p
    simp only [Option.map_some, Option.getD_some, MetricKind.lost_eq_ofFaults,
      Losses.sum_map_ofFaults]

/-- The losses of a metric are its faults: those of its points, or one for each point. -/
theorem MetricForm.snd_fate (m : MetricForm) : m.fate.2 = .ofFaults m.faults := by
  rw [fate, faults]
  cases m.temporality with
  | error e => exact Losses.ofFault_eq_ofFaults (by omega) e
  | ok temporality => exact m.pointLosses_eq_ofFaults

/-- The losses of a value that should be a metric are its faults. -/
theorem snd_metricFate (v : Json) : (metricFate v).2 = .ofFaults (metricFaults v) := by
  rw [metricFate, metricFaults]
  cases metricForm Json.maxLevels v with
  | error f => rfl
  | ok m => exact m.snd_fate

/-- What is rejected of groups are the faults of their items, and the first of them is reported. -/
theorem losses_of_faults {α : Type} {fate : Json → Fate α} {faults : Json → List DecodeFault}
    (h : ∀ v, (fate v).2 = .ofFaults (faults v)) (gs : List ResourceGroupForm) :
    (gs.map (ResourceGroupForm.losses fate)).sum.rejected =
        ((rawItems gs).flatMap faults).length ∧
      (gs.map (ResourceGroupForm.losses fate)).sum.firstError =
        ((rawItems gs).flatMap faults).head?.map .decode := by
  obtain ⟨n, hn⟩ := sum_losses_eq fate gs
  rw [hn, funext h, Losses.sum_map_ofFaults]
  exact ⟨rfl, by simp [Losses.ofFaults, Losses.ofAttributes]⟩

/-! ## Requests -/

/-- Reads an envelope from the bytes of a body. -/
def envelope (n : Naming) (body : List UInt8) : Except Fault (List ResourceGroupForm) := do
  envelopeForm n Json.maxLevels (← Json.read body)

/-- A request is converted group by group, and its losses add up. -/
theorem TakesEach.request_eq {α : Type} {fate : Json → Fate α}
    {takeItems : Losses → List Json → List α × Losses} (h : TakesEach takeItems fate) (n : Naming)
    (body : List UInt8) :
    request n takeItems body =
      match envelope n body with
      | .error f => .error (.decode (.malformedBody f))
      | .ok gs => .ok ⟨⟨gs.map (ResourceGroupForm.converted fate)⟩,
          (gs.map (ResourceGroupForm.losses fate)).sum⟩ := by
  rw [request, ← envelope]
  cases envelope n body with
  | error f => rfl
  | ok gs =>
    have hlosses := h.takeResources_eq gs 0
    rw [zero_add] at hlosses
    show Except.ok (Partial.mk _ _) = _
    rw [show ({} : Losses) = 0 from rfl, hlosses]

theorem envelope_of_read {n : Naming} {body : List UInt8} {v : Json} (h : Json.read body = .ok v) :
    envelope n body = envelopeForm n Json.maxLevels v := by
  rw [envelope, h]
  rfl

end Telemetry.Otlp.FromJson

namespace Telemetry

open Otlp (Request)
open Otlp.FromJson

/-- The naming of the records of a kind. -/
def RecordKind.naming : RecordKind → Naming
  | .metrics => metricNaming
  | .traces => traceNaming
  | .logs => logNaming

namespace Otlp.Request

/-- The request that is made of groups, and what is lost of them. -/
def ofGroups (kind : RecordKind) (gs : List ResourceGroupForm) : Request × Losses :=
  match kind with
  | .metrics => (.metrics ⟨gs.map (ResourceGroupForm.converted metricFate)⟩,
      (gs.map (ResourceGroupForm.losses metricFate)).sum)
  | .traces => (.traces ⟨gs.map (ResourceGroupForm.converted (fateOf span))⟩,
      (gs.map (ResourceGroupForm.losses (fateOf span))).sum)
  | .logs => (.logs ⟨gs.map (ResourceGroupForm.converted (fateOf logRecord))⟩,
      (gs.map (ResourceGroupForm.losses (fateOf logRecord))).sum)

/-- The JSON form of a request is converted group by group, if its envelope can be read. -/
theorem ofJson_eq (kind : RecordKind) (body : List UInt8) :
    ofJson kind body =
      match envelope kind.naming body with
      | .error f => .error (.decode (.malformedBody f))
      | .ok gs => .ok (ofGroups kind gs) := by
  cases kind with
  | metrics =>
    rw [ofJson, FromJson.metrics, takesEach_takeMetrics.request_eq, RecordKind.naming]
    cases envelope metricNaming body <;> rfl
  | traces =>
    rw [ofJson, FromJson.traces, (takesEach_take span).request_eq, RecordKind.naming]
    cases envelope traceNaming body <;> rfl
  | logs =>
    rw [ofJson, FromJson.logs, (takesEach_take logRecord).request_eq, RecordKind.naming]
    cases envelope logNaming body <;> rfl

theorem ofJson_of_envelope {kind : RecordKind} {body : List UInt8} {gs : List ResourceGroupForm}
    (h : envelope kind.naming body = .ok gs) : ofJson kind body = .ok (ofGroups kind gs) := by
  rw [ofJson_eq, h]

/-- A request is made of an envelope that could be read. -/
theorem envelope_of_ofJson {kind : RecordKind} {body : List UInt8} {request : Request}
    {losses : Losses} (h : ofJson kind body = .ok (request, losses)) :
    ∃ gs, envelope kind.naming body = .ok gs ∧ ofGroups kind gs = (request, losses) := by
  rw [ofJson_eq] at h
  split at h
  next => cases h
  next gs hgs => exact ⟨gs, hgs, Except.ok.inj h⟩

end Otlp.Request

end Telemetry
