import Telemetry.Json.Decoder
import Telemetry.Proofs.Fallible
import Telemetry.Proofs.Json.Place

/-!
What a decoder does with the value at a place.

A decoder that comes to a place has read something before it, reads the value there, and goes on
behind it. What it does before and behind does not depend on that value (`Through`): a record goes
through its members (`record_through`), a list through its items (`list_through`), and one place
after another is a place again (`Through.comp`). So from one value that is read it is known what
becomes of all others at the same place (`Through.exchange`).
-/

set_option autoImplicit false

namespace Telemetry.Json

/-! ## Readings through a place

A reading passes through a place if it is interrupted there: what it has read before, and how it
goes on with the result for the value, are fixed for all values at that place. -/

section Through

variable {α β γ : Type}

/-- A reading that stops at a place and goes on behind it. -/
structure Interrupted (β α : Type) where
  before : Except Fault Unit
  behind : Except Fault (β → α)

/-- Goes on with what has been read at the place. -/
def Interrupted.resume (r : Interrupted β α) (b : Except Fault β) : Except Fault α := do
  r.before
  let b ← b
  let f ← r.behind
  return f b

/-- Whether one reading goes through another one; `kind` says what is made of what is read there. -/
def Through (outer : Json → Except Fault α) (inner : Json → Except Fault β)
    (kind : (β → α) → Prop) : Prop :=
  ∃ r : Interrupted β α, (∀ v, outer v = r.resume (inner v)) ∧ ∀ f, r.behind = .ok f → kind f

variable {outer : Json → Except Fault α} {inner : Json → Except Fault β} {kind : (β → α) → Prop}

theorem Through.imp {kind' : (β → α) → Prop} (h : Through outer inner kind)
    (himp : ∀ f, kind f → kind' f) : Through outer inner kind' := by
  obtain ⟨r, hr, hkind⟩ := h
  exact ⟨r, hr, fun f hf => himp f (hkind f hf)⟩

theorem Through.congr {outer' : Json → Except Fault α} (h : Through outer inner kind)
    (heq : ∀ v, outer' v = outer v) : Through outer' inner kind := by
  obtain ⟨r, hr, hkind⟩ := h
  exact ⟨r, fun v => (heq v).trans (hr v), hkind⟩

/-- What is made of the result in the end. -/
theorem Through.map (h : Through outer inner kind) (g : α → γ) :
    Through (fun v => (outer v).map g) inner fun f => ∃ f', kind f' ∧ f = g ∘ f' := by
  obtain ⟨r, hr, hkind⟩ := h
  refine ⟨⟨r.before, r.behind.map (g ∘ ·)⟩, fun v => ?_, fun f hf => ?_⟩
  · show (outer v).map g = _
    rw [hr, Interrupted.resume, Interrupted.resume]
    cases r.before <;> cases inner v <;> cases r.behind <;> rfl
  · obtain ⟨f', hf', hf⟩ := Fallible.map_eq_ok hf
    exact ⟨f', hkind f' hf', hf.symm⟩

/-- What is checked in the end. -/
theorem Through.check (h : Through outer inner kind) (check : Except Fault Unit) :
    Through (fun v => do let a ← outer v; check; return a) inner kind := by
  obtain ⟨r, hr, hkind⟩ := h
  refine ⟨⟨r.before, do let f ← r.behind; check; return f⟩, fun v => ?_, fun f hf => ?_⟩
  · show (do let a ← outer v; check; return a) = _
    rw [hr, Interrupted.resume, Interrupted.resume]
    cases r.before <;> cases inner v <;> cases r.behind <;> cases check <;> rfl
  · obtain ⟨f', hf', hf⟩ := Fallible.bind_eq_ok hf
    obtain ⟨-, -, hf⟩ := Fallible.bind_eq_ok hf
    rw [← Except.ok.inj hf]
    exact hkind f' hf'

/-- A reading that stops at a place in a place. -/
def Interrupted.comp (r : Interrupted β α) (r' : Interrupted γ β) : Interrupted γ α where
  before := do
    r.before
    r'.before
  behind := do
    let f' ← r'.behind
    let f ← r.behind
    return f ∘ f'

/-- An interruption within another one is resumed from inside. -/
theorem Interrupted.resume_comp (r : Interrupted β α) (r' : Interrupted γ β)
    (c : Except Fault γ) : (r.comp r').resume c = r.resume (r'.resume c) := by
  obtain ⟨before, behind⟩ := r
  obtain ⟨before', behind'⟩ := r'
  -- whichever step fails first, it is the same one on both sides
  cases before <;> cases before' <;> cases c <;> cases behind' <;> cases behind <;> rfl

/-- A reading through a place, and on through a place in it. -/
theorem Through.comp (h : Through outer inner kind) {fill : Json → Json}
    {innermost : Json → Except Fault γ} {kind' : (γ → β) → Prop}
    (h' : Through (fun v => inner (fill v)) innermost kind') :
    Through (fun v => outer (fill v)) innermost fun f =>
      ∃ g g', kind g ∧ kind' g' ∧ f = g ∘ g' := by
  obtain ⟨r, hr, hkind⟩ := h
  obtain ⟨r', hr', hkind'⟩ := h'
  refine ⟨r.comp r', fun v => ?_, fun f hf => ?_⟩
  · rw [Interrupted.resume_comp, ← hr']
    exact hr (fill v)
  · obtain ⟨g', hg', hf⟩ := Fallible.bind_eq_ok hf
    obtain ⟨g, hg, hf⟩ := Fallible.bind_eq_ok hf
    exact ⟨g, g', hkind g hg, hkind' g' hg', (Except.ok.inj hf).symm⟩

/-- From one value that is read it is known how all others at the place are read. -/
theorem Through.exchange (h : Through outer inner kind) {v : Json} {a : α}
    (hv : outer v = .ok a) :
    ∃ f b, kind f ∧ inner v = .ok b ∧ a = f b ∧ ∀ w, outer w = (inner w).map f := by
  obtain ⟨r, hr, hkind⟩ := h
  obtain ⟨u, hbefore, hrest⟩ := Fallible.bind_eq_ok ((hr v).symm.trans hv)
  obtain ⟨b, hb, hrest⟩ := Fallible.bind_eq_ok hrest
  obtain ⟨f, hf, hrest⟩ := Fallible.bind_eq_ok hrest
  refine ⟨f, b, hkind f hf, hb, (Except.ok.inj hrest).symm, fun w => ?_⟩
  rw [hr, Interrupted.resume, hbefore, hf]
  cases inner w <;> rfl

/-- Values that are themselves read are all refused for one reason, or one thing is made of all of
them. -/
theorem Through.total (h : Through outer inner kind) :
    (∃ e, ∀ v b, inner v = .ok b → outer v = .error e) ∨
      ∃ f, kind f ∧ ∀ v b, inner v = .ok b → outer v = .ok (f b) := by
  obtain ⟨r, hr, hkind⟩ := h
  -- what stands around the interruption is passed, or it has an error of its own
  cases hall : (do r.before; r.behind) with
  | error e =>
    refine .inl ⟨e, fun v b hb => ?_⟩
    rw [hr, Interrupted.resume, hb]
    cases hbefore : r.before with
    | error e' =>
      rw [hbefore] at hall
      obtain rfl : e' = e := Except.error.inj hall
      rfl
    | ok u =>
      rw [hbefore] at hall
      rw [show r.behind = .error e from hall]
      rfl
  | ok f =>
    obtain ⟨u, hbefore, hbehind⟩ := Fallible.bind_eq_ok hall
    refine .inr ⟨f, hkind f hbehind, fun v b hb => ?_⟩
    rw [hr, Interrupted.resume, hb, hbefore, hbehind]
    rfl

end Through

namespace Decoder

variable {α β : Type}

/-! ## Lists -/

/-- A list goes through each of its items. -/
theorem list_through (d : Decoder α) (levels : Nat) (before after : List Json) :
    Through (fun v => list d (levels + 1) ((Frame.item before after).fill v)) (d levels)
      fun f => ∃ as bs, f = fun a => as ++ a :: bs := by
  refine ⟨⟨(before.mapM (d levels)).map fun _ => (), do
    let as ← before.mapM (d levels)
    let bs ← after.mapM (d levels)
    return fun a => as ++ a :: bs⟩, fun v => ?_, fun f hf => ?_⟩
  · show (before ++ v :: after).mapM (d levels) = _
    rw [List.mapM_append, List.mapM_cons, Interrupted.resume]
    cases before.mapM (d levels) <;> cases d levels v <;> cases after.mapM (d levels) <;> rfl
  · obtain ⟨as, -, hf⟩ := Fallible.bind_eq_ok hf
    obtain ⟨bs, -, hf⟩ := Fallible.bind_eq_ok hf
    exact ⟨as, bs, (Except.ok.inj hf).symm⟩

/-- What may be nothing is read like what it is, for nothing has no places. -/
theorem optional_fill (d : Decoder α) (levels : Nat) (frame : Frame) (v : Json) :
    optional d levels (frame.fill v) = (d levels (frame.fill v)).map some := by
  cases frame <;> rfl

/-! ## Records

Members are read one after another, and none touches what another one sets. So the value of one
member can be put in last, whatever stands before and behind it. -/

/-- How the member of a name is read, and where it is put; the other members do not touch it. -/
structure IsMember (names : List String) (set : Nat → α → String → Json → Except Fault α)
    (name : String) (read : Decoder β) (put : β → α → α) : Prop where
  nodup : names.Nodup
  mem : name ∈ names
  set_eq : ∀ levels a v, set levels a name v = (read levels v).map fun b => put b a
  set_put : ∀ levels a b n v, n ∈ names → n ≠ name →
    set levels (put b a) n v = (set levels a n v).map (put b)

variable {names : List String} {set : Nat → α → String → Json → Except Fault α} {name : String}
  {read : Decoder β} {put : β → α → α}

/-- Sets members one after another. -/
def setMembers (set : Nat → α → String → Json → Except Fault α) (levels : Nat) (start : α)
    (members : List (String × Json)) : Except Fault α :=
  members.foldlM (fun a m => set levels a m.1 m.2) start

/-- Members are set one after another, beginning with the first. -/
theorem setMembers_cons (levels : Nat) (start : α) (m : String × Json)
    (members : List (String × Json)) :
    setMembers set levels start (m :: members) =
      set levels start m.1 m.2 >>= (setMembers set levels · members) :=
  List.foldlM_cons ..

theorem setMembers_append (levels : Nat) (start : α) (members members' : List (String × Json)) :
    setMembers set levels start (members ++ members') =
      setMembers set levels start members >>= (setMembers set levels · members') :=
  List.foldlM_append ..

/-- It makes no difference whether members of other names are set before the member or behind it. -/
theorem IsMember.setMembers_put (h : IsMember names set name read put) (levels : Nat)
    {members : List (String × Json)} (hmembers : ∀ m ∈ members, m.1 ∈ names ∧ m.1 ≠ name)
    (a : α) (b : β) :
    setMembers set levels (put b a) members = (setMembers set levels a members).map (put b) := by
  induction members generalizing a with
  | nil => rfl
  | cons m members ih =>
    obtain ⟨⟨hname, hne⟩, hmembers⟩ := List.forall_mem_cons.1 hmembers
    rw [setMembers_cons, setMembers_cons, h.set_put levels a b m.1 m.2 hname hne]
    cases set levels a m.1 m.2 with
    | error e => rfl
    | ok a' => exact ih hmembers a'

/-- Setting some members goes through each of them. -/
theorem IsMember.setMembers_through (h : IsMember names set name read put) (levels : Nat)
    (start : α) (before : List (String × Json)) {after : List (String × Json)}
    (hafter : ∀ m ∈ after, m.1 ∈ names ∧ m.1 ≠ name) :
    Through (fun v => setMembers set levels start (before ++ (name, v) :: after)) (read levels)
      fun f => ∃ a, f = fun b => put b a := by
  -- the reader stops behind the members before this one, and goes on with those after it
  refine ⟨⟨(setMembers set levels start before).map fun _ => (), do
    let a ← setMembers set levels start before
    let a ← setMembers set levels a after
    return fun b => put b a⟩, fun v => ?_, fun f hf => ?_⟩
  · show setMembers set levels start (before ++ (name, v) :: after) = _
    rw [setMembers_append, Interrupted.resume]
    cases setMembers set levels start before with
    | error e => rfl
    | ok a =>
      show setMembers set levels a ((name, v) :: after) = _
      rw [setMembers_cons, h.set_eq]
      cases read levels v with
      | error e => rfl
      | ok b =>
        -- what is put by the member is put in the end as well
        show setMembers set levels (put b a) after = do
          let f ← (do
            let a ← setMembers set levels a after
            return fun b => put b a : Except Fault (β → α))
          return f b
        rw [h.setMembers_put levels hafter]
        cases setMembers set levels a after <;> rfl
  · obtain ⟨a, -, hf⟩ := Fallible.bind_eq_ok hf
    obtain ⟨a', -, hf⟩ := Fallible.bind_eq_ok hf
    exact ⟨a', (Except.ok.inj hf).symm⟩

/-- Known members have known names, none of which has been seen before. -/
theorem mem_known {members rest : List (String × Json)} {seen : List String}
    (h : known names members seen = .ok rest) : ∀ m ∈ rest, m.1 ∈ names ∧ m.1 ∉ seen := by
  -- on the members: those of other names are left out, and those seen before are an error
  induction members generalizing seen rest with
  | nil =>
    obtain rfl := Except.ok.inj h
    exact List.forall_mem_nil _
  | cons m members ih =>
    obtain ⟨n, v⟩ := m
    rw [known] at h
    split at h
    next => exact ih h
    next hname =>
      split at h
      next => cases h
      next hseen =>
        obtain ⟨others, hothers, hrest⟩ := Fallible.bind_eq_ok h
        obtain rfl := Except.ok.inj hrest
        refine List.forall_mem_cons.2 ⟨⟨by simpa using hname, by simpa using hseen⟩, ?_⟩
        intro m hm
        obtain ⟨hm, hnot⟩ := ih hothers m hm
        exact ⟨hm, fun hmem => hnot (List.mem_cons_of_mem _ hmem)⟩

/-- The known members around one of them, unless some name is repeated. They do not depend on its
value. -/
theorem known_fill (hname : name ∈ names) (before after : List (String × Json))
    (seen : List String) :
    (∃ e, ∀ v, known names (before ++ (name, v) :: after) seen = .error e) ∨
      ∃ before' after', (∀ m ∈ after', m.1 ∈ names ∧ m.1 ≠ name) ∧
        ∀ v, known names (before ++ (name, v) :: after) seen =
          .ok (before' ++ (name, v) :: after') := by
  -- on the members before the hole, where the names that were seen grow
  induction before generalizing seen with
  | nil =>
    have hcontains : names.contains name = true := List.contains_iff_mem.2 hname
    simp only [List.nil_append, known, hcontains, Bool.not_true, Bool.false_eq_true, if_false]
    split
    next => exact .inl ⟨_, fun _ => rfl⟩
    next =>
      -- the hole has the name now, so none of the members behind it may have it
      cases hafter : known names after (name :: seen) with
      | error e => exact .inl ⟨e, fun _ => rfl⟩
      | ok after' =>
        refine .inr ⟨[], after', fun m hm => ?_, fun _ => rfl⟩
        obtain ⟨hmem, hnot⟩ := mem_known hafter m hm
        exact ⟨hmem, fun heq => hnot (heq ▸ List.mem_cons_self)⟩
  | cons m before ih =>
    obtain ⟨n, u⟩ := m
    simp only [List.cons_append, known]
    split
    next => exact ih seen
    next =>
      split
      next => exact .inl ⟨_, fun _ => rfl⟩
      next =>
        obtain ⟨e, he⟩ | ⟨before', after', hafter, hknown⟩ := ih (n :: seen)
        · exact .inl ⟨e, fun v => by rw [he]; rfl⟩
        · exact .inr ⟨(n, u) :: before', after', hafter, fun v => by rw [hknown]; rfl⟩

/-- A record in the form of an object goes through each of its members. -/
theorem object_through (h : IsMember names set name read put) (least : Nat) (start : α)
    (levels : Nat) (before after : List (String × Json)) :
    Through
      (fun v => record names least start set (levels + 1) (.object (before ++ (name, v) :: after)))
      (read levels) fun f => ∃ a, f = fun b => put b a := by
  obtain ⟨e, he⟩ | ⟨before', after', hafter, hknown⟩ := known_fill h.mem before after []
  · -- a name is repeated, so nothing is read at all
    refine ⟨⟨.error e, .error e⟩, fun v => ?_, fun f hf => by cases hf⟩
    show (known names (before ++ (name, v) :: after) [] >>= _) = _
    rw [he]
    rfl
  · refine (h.setMembers_through levels start before' hafter).congr fun v => ?_
    show (known names (before ++ (name, v) :: after) [] >>= _) = _
    rw [hknown]
    rfl

/-- Whether an array has as many items as a record needs, and no more than it has members. -/
def checkLength (names : List String) (least length : Nat) : Except Fault Unit :=
  if length < least then .error (.unexpected "more items")
  else if names.length < length then .error (.unexpected "fewer items")
  else .ok ()

/-- A record that is written as an array has its members by their positions. -/
theorem record_array (names : List String) (least : Nat) (start : α)
    (set : Nat → α → String → Json → Except Fault α) (levels : Nat) (items : List Json) :
    record names least start set (levels + 1) (.array items) = do
      let a ← setMembers set levels start (names.zip items)
      checkLength names least items.length
      return a := by
  rw [record, checkLength, ← setMembers]
  cases setMembers set levels start (names.zip items) with
  | error e => rfl
  | ok a =>
    by_cases hleast : items.length < least
    · simp only [hleast, if_true]
      rfl
    · by_cases hmost : names.length < items.length
      · simp only [hleast, hmost, if_true, if_false]
        rfl
      · simp only [hleast, hmost, if_false]
        rfl

/-- A record in the form of an array goes through the item at the position of each name. -/
theorem array_through (h : IsMember names set name read put) (least : Nat) (start : α)
    (levels : Nat) {before after : List Json} (hname : names[before.length]? = some name) :
    Through
      (fun v => record names least start set (levels + 1) (.array (before ++ v :: after)))
      (read levels) fun f => ∃ a, f = fun b => put b a := by
  obtain ⟨hlt, hget⟩ := List.getElem?_eq_some_iff.1 hname
  -- the value at a position has the name at the same position
  have hsplit : names = names.take before.length ++ name :: names.drop (before.length + 1) := by
    rw [← hget, ← List.drop_eq_getElem_cons hlt, List.take_append_drop]
  have hlength : (names.take before.length).length = before.length := by
    rw [List.length_take]
    omega
  generalize names.take before.length = front at hsplit hlength
  generalize names.drop (before.length + 1) = back at hsplit
  -- names are different, so no later position has this one
  have hback : ∀ m ∈ back.zip after, m.1 ∈ names ∧ m.1 ≠ name := by
    intro m hm
    have hmem : m.1 ∈ back := (List.of_mem_zip hm).1
    have hnodup := h.nodup
    rw [hsplit, List.nodup_append] at hnodup
    refine ⟨?_, fun heq => (List.nodup_cons.1 hnodup.2.1).1 (heq ▸ hmem)⟩
    rw [hsplit]
    exact List.mem_append_right _ (List.mem_cons_of_mem _ hmem)
  refine (Through.check (h.setMembers_through levels start (front.zip before) hback)
    (checkLength names least (before.length + (after.length + 1)))).congr fun v => ?_
  have hzip : names.zip (before ++ v :: after) =
      front.zip before ++ (name, v) :: back.zip after := by
    rw [hsplit, List.zip_append hlength, List.zip_cons_cons]
  rw [record_array, hzip, List.length_append, List.length_cons]

/-- A record goes through each of its members. -/
theorem record_through (h : IsMember names set name read put) (least : Nat) (start : α)
    (levels : Nat) {frame : Frame} (hframe : frame.Takes (.member names name)) :
    Through (fun v => record names least start set (levels + 1) (frame.fill v)) (read levels)
      fun f => ∃ a, f = fun b => put b a := by
  cases frame with
  | item before after => exact array_through h least start levels hframe
  | member before n after =>
    obtain rfl : n = name := hframe
    exact object_through h least start levels before after

/-! ## Decoders along a path

Decoders are put one inside another, and the way through all of them is the way through each. A
path is followed step by step from the outside. -/

/-- Whether a decoder leads along a path to another one: it goes through each place at the end of
the path, where as many levels less are left as the path has steps. -/
def Leads (outer : Decoder α) (path : List Step) (inner : Decoder β) (kind : (β → α) → Prop) :
    Prop :=
  ∀ (levels : Nat) (place : Place), place.Follows path →
    Through (fun v => outer (levels + path.length) (place.fill v)) (inner levels) kind

section Leads

variable {γ : Type} {outer : Decoder α} {inner : Decoder β} {innermost : Decoder γ}
  {path path' : List Step} {kind : (β → α) → Prop} {kind' : (γ → β) → Prop}

/-- One step. -/
theorem leads_step {step : Step}
    (h : ∀ (levels : Nat) (frame : Frame), frame.Takes step →
      Through (fun v => outer (levels + 1) (frame.fill v)) (inner levels) kind) :
    Leads outer [step] inner kind := by
  intro levels place hplace
  obtain ⟨frame, rest, hframe, hrest, rfl⟩ := List.forall₂_cons_right_iff.1 hplace
  obtain rfl := List.forall₂_nil_right_iff.1 hrest
  exact h levels frame hframe

/-- One path after another. -/
theorem Leads.trans (h : Leads outer path inner kind) (h' : Leads inner path' innermost kind') :
    Leads outer (path ++ path') innermost fun f => ∃ g g', kind g ∧ kind' g' ∧ f = g ∘ g' := by
  intro levels place hplace
  have hfront := List.forall₂_take_append place path path' hplace
  have hback := List.forall₂_drop_append place path path' hplace
  rw [← List.take_append_drop path.length place]
  refine ((h _ _ hfront).comp (h' _ _ hback)).congr fun v => ?_
  rw [Place.fill_append, List.length_append, Nat.add_comm path.length, ← Nat.add_assoc]

theorem Leads.imp {kind' : (β → α) → Prop} (h : Leads outer path inner kind)
    (himp : ∀ f, kind f → kind' f) : Leads outer path inner kind' :=
  fun levels place hplace => (h levels place hplace).imp himp

/-- What may be nothing leads on like what it is. -/
theorem Leads.optional {step : Step} (h : Leads outer (step :: path) inner kind) :
    Leads (optional outer) (step :: path) inner fun f => ∃ g, kind g ∧ f = some ∘ g := by
  intro levels place hplace
  refine ((h levels place hplace).map some).congr fun v => ?_
  obtain ⟨frame, rest, -, -, rfl⟩ := List.forall₂_cons_right_iff.1 hplace
  exact optional_fill outer _ frame _

/-- A list leads to its items. -/
theorem list_leads (d : Decoder α) :
    Leads (list d) [.item] d fun f => ∃ as bs, f = fun a => as ++ a :: bs :=
  leads_step fun levels frame hframe =>
    match frame, hframe with
    | .item before after, _ => list_through d levels before after

/-- A record leads to its members. -/
theorem record_leads {names : List String} {set : Nat → α → String → Json → Except Fault α}
    {name : String} {put : β → α → α} (h : IsMember names set name inner put) (least : Nat)
    (start : α) :
    Leads (record names least start set) [.member names name] inner
      fun f => ∃ a, f = fun b => put b a :=
  leads_step fun levels _ hframe => record_through h least start levels hframe

end Leads

/-! ## What holds of all that is read -/

section Induction

variable {names : List String} {least : Nat} {start : α}
  {set : Nat → α → String → Json → Except Fault α} (good : α → Prop) (hstart : good start)
  (hset : ∀ levels a name v a', good a → set levels a name v = .ok a' → good a')

include hstart hset

/-- What holds at the start and is kept by each member holds when members have been set. -/
theorem setMembers_induction {levels : Nat} {members : List (String × Json)} {a : α}
    (h : setMembers set levels start members = .ok a) : good a := by
  induction members generalizing start with
  | nil => exact Except.ok.inj h ▸ hstart
  | cons m members ih =>
    rw [setMembers_cons] at h
    obtain ⟨a', ha', hrest⟩ := Fallible.bind_eq_ok h
    exact ih (hset levels start m.1 m.2 a' hstart ha') hrest

/-- It holds of a record that is read. -/
theorem record_induction {levels : Nat} {v : Json} {a : α}
    (h : record names least start set levels v = .ok a) : good a := by
  match levels, v with
  | 0, v => cases v <;> cases h
  | levels + 1, .object members =>
    obtain ⟨_, -, hmembers⟩ := Fallible.bind_eq_ok h
    exact setMembers_induction good hstart hset hmembers
  | levels + 1, .array items =>
    rw [record_array] at h
    obtain ⟨a', hmembers, hrest⟩ := Fallible.bind_eq_ok h
    obtain ⟨-, -, heq⟩ := Fallible.bind_eq_ok hrest
    exact Except.ok.inj heq ▸ setMembers_induction good hstart hset hmembers

end Induction

/-- What is there was read. -/
theorem of_optional_eq_some {d : Decoder α} {levels : Nat} {v : Json} {a : α}
    (h : optional d levels v = .ok (some a)) : d levels v = .ok a := by
  cases v with
  | null => cases h
  | _ =>
    obtain ⟨a', ha', heq⟩ := Fallible.map_eq_ok h
    exact ha'.trans (congrArg _ (Option.some.inj heq))

/-- Each item of a list that is read has been read. -/
theorem mem_list {d : Decoder α} {levels : Nat} {v : Json} {as : List α}
    (h : list d levels v = .ok as) : ∀ a ∈ as, ∃ levels v, d levels v = .ok a := by
  intro a ha
  match levels, v with
  | 0, v => cases v <;> cases h
  | levels + 1, .array items =>
    obtain ⟨v, -, hv⟩ := Fallible.exists_of_mem_mapM h ha
    exact ⟨levels, v, hv⟩

end Decoder

end Telemetry.Json
