import Telemetry.Otlp.Request
import Telemetry.Proofs.Otlp.Envelope
import Telemetry.Proofs.Otlp.Losses

/-!
What becomes of an export when a resource or a scope has one more attribute that is no good.

An attribute may be no good in two ways. Its value may have the wrong type, be out of range, or not
be an integer at all, somewhere inside of it: then the attribute cannot be read, and since
attributes are read with the envelope, nothing is read. Or all of it has the right types, and then
only bytes that are not in Base64 can be wrong (`OnlyBytesFail`): such an attribute is left out and
counted, and the rest of the export is what it would be without it.
-/

set_option autoImplicit false

namespace Telemetry.Otlp.FromJson

open Json (Fault Place Step)
open Json.Decoder (list optional record_induction mem_list of_optional_eq_some)

/-! ## Why attributes do not convert

An attribute is dropped if there are bytes in it that are not in base 64. Anything else that is
wrong with it makes the envelope unreadable. -/

/-- Whether an outcome fails for no other reason than bytes that are not in Base64. -/
def OnlyBytesFail {α : Type} (outcome : Except DecodeFault α) : Prop :=
  ∀ e, outcome = .error e → ∃ b, e = .invalidBytes b

theorem onlyBytesFail_ok {α : Type} (a : α) : OnlyBytesFail (.ok a) := fun _ h => nomatch h

/-- What is made of a result fails as the result did. -/
theorem OnlyBytesFail.map {α β : Type} {outcome : Except DecodeFault α} (h : OnlyBytesFail outcome)
    (f : α → β) : OnlyBytesFail (outcome.map f) := by
  intro e he
  cases outcome with
  | ok a => cases he
  | error e' => exact h e (congrArg _ (Except.error.inj he))

/-- A list of conversions fails for bytes only, if each of them does. -/
theorem onlyBytesFail_mapM {α β : Type} {f : α → Except DecodeFault β} {as : List α}
    (h : ∀ a ∈ as, OnlyBytesFail (f a)) : OnlyBytesFail (as.mapM f) := by
  intro e he
  obtain ⟨a, ha, hfa⟩ := Fallible.exists_of_mapM_eq_error he
  exact h a ha e hfa

/-- Whether whatever a decoder reads can fail to convert for that reason only. -/
def ReadsOnlyBytesFail {α : Type} (d : Json.Decoder (Except DecodeFault α)) : Prop :=
  ∀ levels v outcome, d levels v = .ok outcome → OnlyBytesFail outcome

/-- What holds of every item that is read holds of all items of a list. -/
theorem valuesOf_induction {α : Type} {item : Json.Decoder α} {good : α → Prop}
    (hitem : ∀ levels v a, item levels v = .ok a → good a) {levels : Nat} {v : Json} {as : List α}
    (h : valuesOf item levels v = .ok as) : ∀ a ∈ as, good a := by
  refine record_induction (fun as => ∀ a ∈ as, good a) (List.forall_mem_nil _) ?_ h
  intro levels _ _ v as' _ hset a ha
  obtain ⟨levels', v', hread⟩ := mem_list hset a ha
  exact hitem levels' v' a hread

/-- An attribute that is read converts or has bytes that do not, if this is so of its value. -/
theorem keyValueWith_induction {value : Json.Decoder (Except DecodeFault AnyValue)}
    (hvalue : ReadsOnlyBytesFail value) (levels : Nat) (v : Json) (f : KeyValueForm)
    (h : keyValueWith value levels v = .ok f) : OnlyBytesFail f.convert := by
  obtain ⟨⟨key, outcome⟩, hrecord, hrest⟩ := Fallible.bind_eq_ok h
  have houtcome : OnlyBytesFail outcome := by
    refine record_induction (fun p => OnlyBytesFail p.2) (onlyBytesFail_ok _) ?_ hrecord
    intro levels p name v p' hp hset
    split at hset
    · obtain ⟨_, -, hset⟩ := Fallible.bind_eq_ok hset
      exact Except.ok.inj hset ▸ hp
    · obtain ⟨o, ho, hset⟩ := Fallible.bind_eq_ok hset
      rw [← Except.ok.inj hset]
      cases o with
      | none => exact onlyBytesFail_ok _
      | some outcome => exact hvalue _ _ _ (of_optional_eq_some ho)
  cases key with
  | none => cases hrest
  | some key => exact Except.ok.inj hrest ▸ houtcome.map _

/-- What is inside of an attribute value that has been read. -/
structure AnyValueForm.Sound (f : AnyValueForm) : Prop where
  array : ∀ values, f.array = some values → OnlyBytesFail values
  kvlist : ∀ entries, f.kvlist = some entries → OnlyBytesFail entries

/-- A sound value converts, or has bytes that do not, at any depth. -/
theorem AnyValueForm.Sound.convert {f : AnyValueForm} (h : f.Sound) : OnlyBytesFail f.convert := by
  rw [AnyValueForm.convert]
  -- the first member that is there decides
  split
  case h_5 harray _ _ _ _ => exact (h.array _ harray).map _
  case h_6 hkvlist _ _ _ _ _ => exact (h.kvlist _ hkvlist).map _
  case h_7 =>
    intro e he
    split at he
    next => cases he
    next b _ => exact ⟨b, (Except.error.inj he).symm⟩
  all_goals exact onlyBytesFail_ok _

/-- An attribute value that has been read fails to convert for one reason only. -/
theorem anyValueWith_readsOnlyBytesFail (fuel : Nat) : ReadsOnlyBytesFail (anyValueWith fuel) := by
  -- on the fuel: values in arrays and in lists of keys are read with one less
  induction fuel with
  | zero => exact fun _ _ _ h => nomatch h
  | succ fuel ih =>
    intro levels v outcome h
    rw [anyValueWith] at h
    obtain ⟨f, hf, hconvert⟩ := Fallible.bind_eq_ok h
    rw [← Except.ok.inj hconvert]
    refine (record_induction AnyValueForm.Sound ?_ ?_ hf).convert
    · exact ⟨fun _ h => (nomatch h), fun _ h => (nomatch h)⟩
    · intro levels f name v f' hf hset
      -- members of a value are set one by one, and only two of them hold values themselves
      split at hset
      case h_5 =>
        obtain ⟨o, ho, hset⟩ := Fallible.bind_eq_ok hset
        rw [← Except.ok.inj hset]
        refine ⟨fun values hvalues => ?_, hf.kvlist⟩
        obtain ⟨outcomes, rfl, rfl⟩ := Option.map_eq_some_iff.1 hvalues
        exact onlyBytesFail_mapM (valuesOf_induction ih (of_optional_eq_some ho))
      case h_6 =>
        obtain ⟨o, ho, hset⟩ := Fallible.bind_eq_ok hset
        rw [← Except.ok.inj hset]
        refine ⟨hf.array, fun entries hentries => ?_⟩
        obtain ⟨fs, rfl, rfl⟩ := Option.map_eq_some_iff.1 hentries
        have hfs := valuesOf_induction (keyValueWith_induction ih) (of_optional_eq_some ho)
        exact onlyBytesFail_mapM hfs
      -- the other members hold no values
      all_goals
        obtain ⟨o, -, hset⟩ := Fallible.bind_eq_ok hset
        rw [← Except.ok.inj hset]
        exact ⟨hf.array, hf.kvlist⟩

/-- An attribute that has been read fails to convert for one reason only. -/
theorem keyValue_onlyBytesFail {levels : Nat} {v : Json} {f : KeyValueForm}
    (h : keyValue levels v = .ok f) : OnlyBytesFail f.convert :=
  keyValueWith_induction (fun levels' v' => anyValueWith_readsOnlyBytesFail _ levels' v')
    levels v f h

/-! ## One more attribute

An attribute is inserted into a list of attributes, and what is read of the list with it is
compared with what is read without it. -/

/-- An attribute that does not convert is left out and counted. -/
theorem keepConvertible_insert (before after : List KeyValueForm) {bad : KeyValueForm}
    {e : DecodeFault} (hbad : bad.convert = .error e) :
    keepConvertible (before ++ bad :: after) =
      ((keepConvertible (before ++ after)).1, (keepConvertible (before ++ after)).2 + 1) := by
  have hkept : (before ++ bad :: after).filterMap (fun f => f.convert.toOption) =
      (before ++ after).filterMap fun f => f.convert.toOption := by
    rw [List.filterMap_append, List.filterMap_cons, hbad, List.filterMap_append]
    rfl
  have hle : ((before ++ after).filterMap fun f => f.convert.toOption).length ≤
      (before ++ after).length := List.length_filterMap_le _ _
  rw [keepConvertible, keepConvertible, hkept]
  refine Prod.ext rfl ?_
  simp only [List.length_append, List.length_cons] at hle ⊢
  omega

/-- Whether two envelopes convert to the same, and the second one loses one attribute more. -/
structure OneAttributeLess (gs gs' : List ResourceGroupForm) : Prop where
  converted : ∀ {α : Type} (fate : Json → Fate α),
    gs'.map (ResourceGroupForm.converted fate) = gs.map (ResourceGroupForm.converted fate)
  losses : ∀ {α : Type} (fate : Json → Fate α), (gs'.map (ResourceGroupForm.losses fate)).sum =
    (gs.map (ResourceGroupForm.losses fate)).sum + .ofAttributes 1

/-- One attribute less in one place is one less in the sum. -/
theorem sum_losses_of_one {β : Type} {losses : β → Losses} {b b' : β}
    (h : losses b' = losses b + .ofAttributes 1) (front back : List β) :
    ((front ++ b' :: back).map losses).sum =
      ((front ++ b :: back).map losses).sum + .ofAttributes 1 := by
  simp only [List.map_append, List.map_cons, List.sum_append, List.sum_cons, h, add_assoc,
    Losses.ofAttributes_add_comm]

/-- It is enough to look at the group that differs. -/
theorem oneAttributeLess_of_group (front : List ResourceGroupForm) {g g' : ResourceGroupForm}
    (back : List ResourceGroupForm)
    (hconverted : ∀ {α : Type} (fate : Json → Fate α), g'.converted fate = g.converted fate)
    (hlosses : ∀ {α : Type} (fate : Json → Fate α),
      g'.losses fate = g.losses fate + .ofAttributes 1) :
    OneAttributeLess (front ++ g :: back) (front ++ g' :: back) where
  converted fate := by
    rw [List.map_append, List.map_cons, hconverted, ← List.map_cons, ← List.map_append]
  losses fate := sum_losses_of_one (hlosses fate) front back

section Groups

variable (before after : List KeyValueForm) {bad : KeyValueForm} {e : DecodeFault}

/-- A resource with an attribute that does not convert has one less, and is the same otherwise. -/
theorem oneAttributeLess_resource (hbad : bad.convert = .error e) (front : List ResourceGroupForm)
    (g : ResourceGroupForm) (r : ResourceForm) (back : List ResourceGroupForm) :
    OneAttributeLess
      (front ++ { g with resource := some { r with attributes := before ++ after } } :: back)
      (front ++ { g with resource := some { r with attributes := before ++ bad :: after } } ::
        back) := by
  refine oneAttributeLess_of_group front back (fun fate => ?_) fun fate => ?_
  · simp only [ResourceGroupForm.converted, keepConvertible_insert before after hbad,
      Option.map_some]
  · simp only [ResourceGroupForm.losses, keepConvertible_insert before after hbad, Option.map_some,
      Option.getD_some, ← Losses.ofAttributes_add, add_assoc]

theorem oneAttributeLess_scope (hbad : bad.convert = .error e) (front : List ResourceGroupForm)
    (g : ResourceGroupForm) (ss : List ScopeGroupForm) (s : ScopeGroupForm) (scope : ScopeForm)
    (ss' : List ScopeGroupForm) (back : List ResourceGroupForm) :
    OneAttributeLess
      (front ++ { g with scopes := ss ++
        { s with scope := some { scope with attributes := before ++ after } } :: ss' } :: back)
      (front ++ { g with scopes := ss ++
        { s with scope := some { scope with attributes := before ++ bad :: after } } :: ss' } ::
          back) := by
  refine oneAttributeLess_of_group front back (fun fate => ?_) fun fate => ?_
  · simp only [ResourceGroupForm.converted, ScopeGroupForm.converted, List.map_append,
      List.map_cons, keepConvertible_insert before after hbad, Option.map_some]
  · have hscope : ScopeGroupForm.losses fate
        { s with scope := some { scope with attributes := before ++ bad :: after } } =
        ScopeGroupForm.losses fate
          { s with scope := some { scope with attributes := before ++ after } } +
            .ofAttributes 1 := by
      simp only [ScopeGroupForm.losses, keepConvertible_insert before after hbad, Option.map_some,
        Option.getD_some, ← Losses.ofAttributes_add, add_assoc]
    rw [ResourceGroupForm.losses, ResourceGroupForm.losses, sum_losses_of_one hscope, add_assoc,
      Losses.ofAttributes_add_comm, ← add_assoc]

end Groups

/-! ## Envelopes -/

/-- What has attributes in an envelope. -/
inductive AttributeHolder where
  | resource
  | scope

/-- The steps to the attributes. -/
def AttributeHolder.path (n : Naming) : AttributeHolder → List Step
  | .resource => resourceAttributesPath n
  | .scope => scopeAttributesPath n

/-- The levels that are left for an attribute. -/
def AttributeHolder.levels : AttributeHolder → Nat
  | .resource => 122
  | .scope => 120

theorem AttributeHolder.levels_add (holder : AttributeHolder) (n : Naming) :
    holder.levels + 1 + (holder.path n).length = Json.maxLevels := by
  cases holder <;> rfl

section Envelopes

variable {n : Naming}

/-- The way to attributes, of a resource or of a scope, ends at a list in which one that does not
convert is one less. -/
theorem leads_attributes (hn : n.Apart) (holder : AttributeHolder) :
    Json.Decoder.Leads (envelopeForm n) (holder.path n) (list keyValue) fun f =>
      ∀ (before after : List KeyValueForm) (bad : KeyValueForm) (e : DecodeFault),
        bad.convert = .error e →
          OneAttributeLess (f (before ++ after)) (f (before ++ bad :: after)) := by
  cases holder with
  | resource =>
    refine (leads_resourceAttributes hn).imp ?_
    rintro _ ⟨front, g, r, back, rfl⟩ before after bad e hbad
    exact oneAttributeLess_resource before after hbad front g r back
  | scope =>
    refine (leads_scopeAttributes hn).imp ?_
    rintro _ ⟨front, g, ss, s, scope, ss', back, rfl⟩ before after bad e hbad
    exact oneAttributeLess_scope before after hbad front g ss s scope ss' back

/-- An envelope with one attribute more: it is refused for the attribute if that cannot be read, and
if it is read and does not convert, the envelope loses it. -/
theorem envelopeForm_insert (hn : n.Apart) {holder : AttributeHolder} {place : Place}
    (hplace : place.Follows (holder.path n)) {before after : List Json} (entry : Json)
    {gs : List ResourceGroupForm}
    (hgs : envelopeForm n Json.maxLevels (place.fill (.array (before ++ after))) = .ok gs) :
    (∀ fault, keyValue holder.levels entry = .error fault →
      envelopeForm n Json.maxLevels (place.fill (.array (before ++ entry :: after))) =
        .error fault) ∧
    ∀ form e, keyValue holder.levels entry = .ok form → form.convert = .error e →
      ∃ gs', envelopeForm n Json.maxLevels (place.fill (.array (before ++ entry :: after))) =
        .ok gs' ∧ OneAttributeLess gs gs' := by
  have hthrough := leads_attributes hn holder (holder.levels + 1) place hplace
  rw [AttributeHolder.levels_add] at hthrough
  -- what was read on the way to the list is the same with one entry more
  obtain ⟨f, fs, hf, hfs, rfl, hexchange⟩ := hthrough.exchange hgs
  obtain ⟨as, bs, has, hbs, rfl⟩ := Fallible.mapM_append_eq_ok hfs
  rw [hexchange]
  have hlist : list keyValue (holder.levels + 1) (.array (before ++ entry :: after)) = do
      let a ← keyValue holder.levels entry
      return as ++ a :: bs := by
    show (before ++ entry :: after).mapM _ = _
    rw [List.mapM_append, List.mapM_cons, has, hbs]
    cases keyValue holder.levels entry <;> rfl
  rw [hlist]
  constructor
  · intro fault hfault
    rw [hfault]
    rfl
  · intro form e hform he
    rw [hform]
    exact ⟨_, rfl, hf as bs form e he⟩

end Envelopes

/-! ## Requests -/

/-- One attribute less makes the same request, with one attribute more dropped. -/
theorem ofGroups_of_oneAttributeLess {kind : RecordKind} {gs gs' : List ResourceGroupForm}
    (h : OneAttributeLess gs gs') :
    Request.ofGroups kind gs' = ((Request.ofGroups kind gs).1,
      (Request.ofGroups kind gs).2 + .ofAttributes 1) := by
  cases kind <;> simp only [Request.ofGroups, h.converted, h.losses]

/-- **What one attribute costs.** If it cannot be read, the export is refused for it. If it is
read and does not convert, there are bytes in it that are not in Base64; then the export loses the
attribute and is the same otherwise. -/
theorem ofJson_insert_attribute {kind : RecordKind} {holder : AttributeHolder} {place : Place}
    (hplace : place.Follows (holder.path kind.naming)) {body body' : List UInt8}
    {before after : List Json} {entry : Json}
    (hbody : Json.read body = .ok (place.fill (.array (before ++ after))))
    (hbody' : Json.read body' = .ok (place.fill (.array (before ++ entry :: after))))
    {request : Request} {losses : Losses}
    (hrequest : Request.ofJson kind body = .ok (request, losses)) :
    (∀ fault, keyValue holder.levels entry = .error fault →
      Request.ofJson kind body' = .error (.decode (.malformedBody fault))) ∧
    ∀ form e, keyValue holder.levels entry = .ok form → form.convert = .error e →
      (∃ b, e = .invalidBytes b) ∧ Request.ofJson kind body' =
        .ok (request, { losses with droppedAttributes := losses.droppedAttributes + 1 }) := by
  obtain ⟨gs, hgs, hgroups⟩ := Request.envelope_of_ofJson hrequest
  rw [envelope_of_read hbody] at hgs
  obtain ⟨hunread, hlost⟩ := envelopeForm_insert (naming_apart kind) hplace entry hgs
  constructor
  · intro fault hfault
    rw [Request.ofJson_eq, envelope_of_read hbody', hunread fault hfault]
  · intro form e hform he
    refine ⟨keyValue_onlyBytesFail hform e he, ?_⟩
    obtain ⟨gs', hgs', hless⟩ := hlost form e hform he
    have hadd : losses + .ofAttributes 1 =
        { losses with droppedAttributes := losses.droppedAttributes + 1 } := by
      ext1 <;> simp [Losses.ofAttributes]
    rw [Request.ofJson_of_envelope (envelope_of_read hbody' ▸ hgs'),
      ofGroups_of_oneAttributeLess hless, hgroups, hadd]

/-- The body of an export without spans, whose resource has some attributes. -/
def bodyWith (attributes : String) : List UInt8 :=
  Text.Utf8.encode <| String.toList <|
    "\x7b\"resourceSpans\":[\x7b\"resource\":\x7b\"attributes\":[" ++ attributes ++ "]\x7d\x7d]\x7d"

/-- The place of the attributes. -/
def placeOfAttributes : Place :=
  [.member [] "resourceSpans" [], .item [] [], .member [] "resource" [], .member [] "attributes" []]

/-- An attribute with one member in its value. -/
def attributeWith (name value : String) : Json :=
  .object [("key", .string "n"), ("value", .object [(name, .string value)])]

/-- The text of such an attribute. -/
def attributeText (name value : String) : String :=
  "\x7b\"key\":\"n\",\"value\":\x7b\"" ++ name ++ "\":\"" ++ value ++ "\"\x7d\x7d"

theorem placeOfAttributes_follows :
    placeOfAttributes.Follows (AttributeHolder.resource.path traceNaming) :=
  .cons rfl (.cons trivial (.cons rfl (.cons rfl .nil)))

/-- Without attributes the export is read. -/
theorem ofJson_bodyWith_nothing :
    ∃ request losses, Request.ofJson .traces (bodyWith "") = .ok (request, losses) := by
  have hread : (Request.ofJson .traces (bodyWith "")).toOption.isSome = true := by decide +kernel
  obtain ⟨⟨request, losses⟩, h⟩ := Option.isSome_iff_exists.1 hread
  exact ⟨request, losses, Fallible.toOption_eq_some.1 h⟩

theorem read_bodyWith_nothing :
    Json.read (bodyWith "") = .ok (placeOfAttributes.fill (.array ([] ++ []))) :=
  Json.read_of_readsAs (by decide +kernel)

theorem read_bodyWith_integer : Json.read (bodyWith (attributeText "intValue" "x")) =
    .ok (placeOfAttributes.fill (.array ([] ++ [attributeWith "intValue" "x"]))) :=
  Json.read_of_readsAs (by decide +kernel)

/-- The theorem at both kinds of attribute: a number that cannot be read costs the body, bytes
that do not convert cost only themselves. -/
theorem ofJson_insert_attribute_of_each :
    (∃ fault, keyValue AttributeHolder.resource.levels (attributeWith "intValue" "x") =
        .error fault ∧
      Request.ofJson .traces (bodyWith (attributeText "intValue" "x")) =
        .error (.decode (.malformedBody fault))) ∧
    ∃ request losses, Request.ofJson .traces (bodyWith "") = .ok (request, losses) ∧
      Request.ofJson .traces (bodyWith (attributeText "bytesValue" "%")) =
        .ok (request, { losses with droppedAttributes := losses.droppedAttributes + 1 }) := by
  obtain ⟨request, losses, hrequest⟩ := ofJson_bodyWith_nothing
  have hbytes : Json.read (bodyWith (attributeText "bytesValue" "%")) =
      .ok (placeOfAttributes.fill (.array ([] ++ [attributeWith "bytesValue" "%"]))) :=
    Json.read_of_readsAs (by decide +kernel)
  refine ⟨⟨.invalidInteger "x", rfl, ?_⟩, request, losses, hrequest, ?_⟩
  · exact (ofJson_insert_attribute placeOfAttributes_follows read_bodyWith_nothing
      read_bodyWith_integer hrequest).1 _ rfl
  · exact ((ofJson_insert_attribute placeOfAttributes_follows read_bodyWith_nothing
      hbytes hrequest).2 _ (.invalidBytes (.symbol 37 0)) rfl rfl).2

/-- So an attribute whose value does not convert may well cost the whole export, here by an integer
that is none. -/
theorem bad_attribute_costs_the_export :
    ¬ ∀ (kind : RecordKind) (holder : AttributeHolder) (place : Place),
      place.Follows (holder.path kind.naming) →
      ∀ (body body' : List UInt8) (before after : List Json) (members : List (String × Json))
        (key : String) (request : Request) (losses : Losses),
        Json.read body = .ok (place.fill (.array (before ++ after))) →
        Json.read body' = .ok (place.fill (.array (before ++ .object members :: after))) →
        ("key", .string key) ∈ members →
        (∀ form, keyValue holder.levels (.object members) = .ok form →
          ∃ e, form.convert = .error e) →
        Request.ofJson kind body = .ok (request, losses) →
        Request.ofJson kind body' =
          .ok (request, { losses with droppedAttributes := losses.droppedAttributes + 1 }) := by
  intro h
  obtain ⟨request, losses, hrequest⟩ := ofJson_bodyWith_nothing
  have hunread : keyValue AttributeHolder.resource.levels (attributeWith "intValue" "x") =
      .error (.invalidInteger "x") := rfl
  have hconverts := h .traces .resource placeOfAttributes placeOfAttributes_follows (bodyWith "")
    (bodyWith (attributeText "intValue" "x")) [] [] _ "n" request losses read_bodyWith_nothing
    read_bodyWith_integer List.mem_cons_self
    (fun form hform => nomatch hunread.symm.trans hform) hrequest
  have hrefused : (Request.ofJson .traces (bodyWith (attributeText "intValue" "x"))).toOption.isNone
      = true := by decide +kernel
  rw [hconverts] at hrefused
  cases hrefused

end Telemetry.Otlp.FromJson
