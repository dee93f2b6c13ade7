import Telemetry.Json.Decoder
import Telemetry.Proofs.Fallible
import Telemetry.Proofs.Json.Settling
import Telemetry.Proofs.Text.Integer

/-!
Shapes of JSON values, and decoders that read whatever has a shape.

A shape says which values stand for something: a scalar may have several forms, and a member of an
object may be one that can be left out. Members of other names do not count, but a known name may
stand in an object only once. A decoder reads a shape if it reads every value that has it, to a
result of which something given holds.

Three facts carry everything else: settling a value preserves its shapes; a list is read item by
item; and a record is read member by member, in whatever order they stand, if what each member sets
is not touched by the others.
-/

set_option autoImplicit false

namespace Telemetry.Json

/-! ## Shapes

A message has many texts: members in any order, members left out at their defaults, unknown
members. A shape describes all of them at once, and `Renders` says which values it allows. -/

/-- What a value may look like. -/
inductive Shape where
  /-- A scalar of one of some forms. -/
  | scalar (form : Json → Prop)
  /-- An array with items of these shapes. -/
  | array (items : List Shape)
  /-- An object. Of the known names it has these, each but for those that may be left out. -/
  | object (names : List String) (fields : List (String × Prop × Shape))

/-- A member: its name, whether it may be left out, and its shape. -/
abbrev Field := String × Prop × Shape

/-- Whether a value is a truth value, a number or a string. -/
def isScalar : Json → Bool
  | .bool _ | .number _ | .string _ => true
  | .null | .array _ | .object _ | .unreadable => false

/-- Whether a value has a shape. -/
inductive Renders : Shape → Json → Prop
  | scalar {form : Json → Prop} {v : Json} (hv : v.isScalar = true) (h : form v) :
      Renders (.scalar form) v
  | array {shapes : List Shape} {items : List Json} (hlength : shapes.length = items.length)
      (h : ∀ p ∈ shapes.zip items, Renders p.1 p.2) : Renders (.array shapes) (.array items)
  | object {names : List String} {fields : List Field} {members : List (String × Json)}
      (once : ((members.map Prod.fst).filter fun n => names.contains n).Nodup)
      (known : ∀ m ∈ members, m.1 ∈ names → ∃ f ∈ fields, f.1 = m.1)
      (written : ∀ f ∈ fields, ∀ v, (f.1, v) ∈ members → Renders f.2.2 v)
      (omitted : ∀ f ∈ fields, f.1 ∉ members.map Prod.fst → f.2.1) :
      Renders (.object names fields) (.object members)

/-- Nothing is not how a value is written. -/
theorem Renders.ne_null {shape : Shape} {v : Json} (h : Renders shape v) : v ≠ .null := by
  rintro rfl
  cases h with
  | scalar hv => cases hv

/-- An object with one member, if the other fields may be left out. -/
theorem Renders.single {names : List String} {fields : List Field} (f : Field) {v : Json}
    (hf : f ∈ fields) (hv : Renders f.2.2 v)
    (hothers : ∀ g ∈ fields, g = f ∨ (g.1 ≠ f.1 ∧ g.2.1)) :
    Renders (.object names fields) (.object [(f.1, v)]) := by
  have hname : ∀ m ∈ [(f.1, v)], m = (f.1, v) := fun m hm => List.mem_singleton.1 hm
  refine .object ?_ (fun m hm _ => ⟨f, hf, ?_⟩) (fun g hg w hw => ?_) fun g hg hnot => ?_
  · exact (List.nodup_cons.2 ⟨List.not_mem_nil, List.nodup_nil⟩).filter _
  · rw [hname m hm]
  · obtain ⟨heq, rfl⟩ := Prod.mk.inj (hname _ hw)
    obtain rfl | ⟨hne, -⟩ := hothers g hg
    · exact hv
    · exact absurd heq hne
  · obtain rfl | ⟨-, hdefault⟩ := hothers g hg
    · exact absurd List.mem_cons_self hnot
    · exact hdefault

/-- An array with one item. -/
theorem Renders.singleton {shape : Shape} {v : Json} (hv : Renders shape v) :
    Renders (.array [shape]) (.array [v]) := by
  refine .array rfl fun p hp => ?_
  rw [List.mem_singleton.1 hp]
  exact hv

/-- A value without parts is settled. -/
theorem settled_of_isScalar {v : Json} (h : v.isScalar = true) : settled v = v := by
  cases v <;> first | rfl | cases h

/-- Settling preserves shapes. -/
theorem Renders.settled {shape : Shape} {v : Json} (h : Renders shape v) :
    Renders shape v.settled := by
  -- members that are repeated are none of those that the shape names, so it does not matter which
  -- of them stays
  induction h with
  | scalar hv h =>
    rw [settled_of_isScalar hv]
    exact .scalar hv h
  | array hlength _ ih =>
    rw [Json.settled, settledItems_eq_map]
    refine .array (by rw [List.length_map, hlength]) fun p hp => ?_
    rw [List.zip_map_right, List.mem_map] at hp
    obtain ⟨q, hq, rfl⟩ := hp
    exact ih q hq
  | object _ known _ omitted ih =>
    rw [Json.settled]
    refine .object ((nodup_names_settledMembers _).filter _) ?_ ?_ ?_
    · intro m hm hname
      obtain hnil | ⟨v, hv, -⟩ := mem_settledMembers hm
      · cases hnil
      · exact known (m.1, v) hv hname
    · intro f hf v hv
      obtain hnil | ⟨v', hv', heq⟩ := mem_settledMembers hv
      · cases hnil
      · rw [show v = Json.settled v' from heq]
        exact ih f hf v' hv'
    · intro f hf hnot
      refine omitted f hf fun hmem => hnot ?_
      exact mem_names_settledMembers.2 (.inr hmem)

/-- Whether a value has a shape within the levels that are left of those a text may have. -/
structure Fits (shape : Shape) (levels : Nat) (v : Json) : Prop where
  atMost : levels ≤ maxLevels
  within : v.within levels = true
  renders : Renders shape v

/-! ## Forms of scalars -/

namespace Shape

/-- A given text. -/
def text (s : String) : Shape := .scalar fun v => v = .string s

/-- A text of which something holds. -/
def textOf (holds : String → Prop) : Shape := .scalar fun v => ∃ s, v = .string s ∧ holds s

/-- A truth value. -/
def bool (b : Bool) : Shape := .scalar fun v => v = .bool b

/-- A whole number. -/
def whole (n : Int) : Shape := .scalar fun v => v = .number (.whole n)

/-- What no value looks like. -/
def never : Shape := .scalar fun _ => False

/-- What something looks like if it is there. -/
def ofOption {α : Type} (shape : α → Shape) (a : Option α) : Shape := (a.map shape).getD never

/-- A number that is read as a double. -/
def double (x : Float) : Shape := .scalar fun v => ∃ n : Number, v = .number n ∧ n.toFloat = x

/-- An unsigned number of 64 bits, as a number or as a decimal text. -/
def unsigned64 (n : UInt64) : Shape :=
  .scalar fun v => v = .number (.whole n.toNat) ∨
    ∃ s, v = .string s ∧ Text.Integer.IsDecimal s.toList n.toNat

/-- A signed number of 64 bits, as a number or as a decimal text. -/
def signed64 (n : Int64) : Shape :=
  .scalar fun v => v = .number (.whole n.toInt) ∨
    ∃ s, v = .string s ∧ Text.Integer.IsSignedDecimal s.toList n.toInt

end Shape

/-! ## Decoders that read a shape

A decoder reads a shape if it takes each value of the shape to a result that meets a condition.
The condition is most often an equation, but what is read of records is known name by name first.
-/

namespace Decoder

variable {α β : Type}

variable {levels : Nat}

/-- Whether a decoder reads each value of a shape within some levels to a good result. -/
def Reads (levels : Nat) (d : Decoder α) (shape : Shape) (good : α → Prop) : Prop :=
  ∀ v : Json, Fits shape levels v → ∃ a, d levels v = .ok a ∧ good a

/-- What is read to something good is read to something at least as good. -/
theorem Reads.imp {d : Decoder α} {shape : Shape} {good good' : α → Prop}
    (h : Reads levels d shape good) (himp : ∀ a, good a → good' a) :
    Reads levels d shape good' := by
  intro v hv
  obtain ⟨a, ha, hgood⟩ := h v hv
  exact ⟨a, ha, himp a hgood⟩

/-- What is made of the result of a decoder. -/
theorem Reads.bind {d : Decoder α} {shape : Shape} {good : α → Prop} {good' : β → Prop}
    (h : Reads levels d shape good) {v : Json} (hv : Fits shape levels v) {f : α → β}
    (hf : ∀ a, good a → good' (f a)) :
    ∃ b, (do let a ← d levels v; return f a : Except Fault β) = .ok b ∧ good' b := by
  obtain ⟨a, ha, hgood⟩ := h v hv
  exact ⟨f a, by rw [ha]; rfl, hf a hgood⟩

/-- A decoder that goes on with the result of another one. -/
theorem Reads.andThen {d : Decoder α} {shape : Shape} {good : α → Prop} {good' : β → Prop}
    (h : Reads levels d shape good) {f : α → Except Fault β}
    (hf : ∀ a, good a → ∃ b, f a = .ok b ∧ good' b) :
    Reads levels (fun levels v => d levels v >>= f) shape good' := by
  intro v hv
  obtain ⟨a, ha, hgood⟩ := h v hv
  obtain ⟨b, hb, hgood'⟩ := hf a hgood
  refine ⟨b, ?_, hgood'⟩
  show d levels v >>= f = .ok b
  rw [ha]
  exact hb

/-! ## Scalars -/

/-- A text is read as itself. -/
theorem text_reads (s : String) : Reads levels text (.text s) (· = s) := by
  intro v hv
  cases hv.renders with
  | scalar _ h =>
    obtain rfl := h
    exact ⟨s, rfl, rfl⟩

/-- A text that is one of several is read as one of them. -/
theorem textOf_reads (holds : String → Prop) : Reads levels text (.textOf holds) holds := by
  intro v hv
  cases hv.renders with
  | scalar _ h =>
    obtain ⟨s, rfl, hs⟩ := h
    exact ⟨s, rfl, hs⟩

/-- A truth value is read as itself. -/
theorem bool_reads (b : Bool) : Reads levels bool (.bool b) (· = b) := by
  intro v hv
  cases hv.renders with
  | scalar _ h =>
    obtain rfl := h
    exact ⟨b, rfl, rfl⟩

/-- A double is read as itself, from a number or from a text. -/
theorem double_reads (x : Float) : Reads levels double (.double x) (· = x) := by
  intro v hv
  cases hv.renders with
  | scalar _ h =>
    obtain ⟨n, rfl, hn⟩ := h
    exact ⟨n.toFloat, rfl, hn⟩

theorem integer_eq_ok {least greatest n : Int} (levels : Nat) (hleast : least ≤ n)
    (hgreatest : n ≤ greatest) :
    integer least greatest levels (.number (.whole n)) = .ok n := by
  rw [integer, if_pos ⟨hleast, hgreatest⟩]

/-- A short number without a sign is read as itself. -/
theorem unsigned32_reads (n : UInt32) : Reads levels unsigned32 (.whole n.toNat) (· = n) := by
  intro v hv
  have hn := n.toNat_lt
  cases hv.renders with
  | scalar _ h =>
    obtain rfl := h
    refine ⟨n, ?_, rfl⟩
    rw [unsigned32, integer_eq_ok levels (by omega)
      (by simp only [Text.Integer.maxUnsigned32]; omega)]
    exact congrArg Except.ok UInt32.ofNat_toNat

/-- A short number with a sign is read from its value. -/
theorem signed32_eq_ok (levels : Nat) (n : Int32) :
    signed32 levels (.number (.whole n.toInt)) = .ok n := by
  have hleast := n.le_toInt
  have hgreatest := n.toInt_lt
  rw [signed32, integer_eq_ok levels (by omega)
    (by simp only [Text.Integer.maxSigned32]; omega)]
  exact congrArg Except.ok (Int32.ofInt_toInt n)

/-- A short number with a sign is read as itself. -/
theorem signed32_reads (n : Int32) : Reads levels signed32 (.whole n.toInt) (· = n) := by
  intro v hv
  cases hv.renders with
  | scalar _ h =>
    obtain rfl := h
    exact ⟨n, signed32_eq_ok levels n, rfl⟩

/-- A long number may be written as a number. -/
theorem flexible_number {least greatest n : Int}
    {ofText : List Char → Except Text.Integer.Fault Int} (levels : Nat) (hleast : least ≤ n)
    (hgreatest : n ≤ greatest) :
    flexible least greatest ofText levels (.number (.whole n)) = .ok n := by
  rw [flexible, if_pos ⟨hleast, hgreatest⟩]

/-- It may be written as a text of its digits, too. -/
theorem flexible_text {least greatest n : Int}
    {ofText : List Char → Except Text.Integer.Fault Int} (levels : Nat) {s : String}
    (h : ofText s.toList = .ok n) :
    flexible least greatest ofText levels (.string s) = .ok n := by
  rw [flexible, h]

/-- A long number without a sign is read as itself in either form. -/
theorem flexibleUnsigned64_reads (n : UInt64) :
    Reads levels flexibleUnsigned64 (.unsigned64 n) (· = n) := by
  intro v hv
  have hn := n.toNat_lt
  refine ⟨n, ?_, rfl⟩
  have hback : (.ok (UInt64.ofNat (n.toNat : Int).toNat) : Except Fault UInt64) = .ok n :=
    congrArg Except.ok UInt64.ofNat_toNat
  cases hv.renders with
  | scalar _ h =>
    obtain rfl | ⟨s, rfl, hs⟩ := h
    · rw [flexibleUnsigned64, flexible_number levels (by omega)
        (by simp only [Text.Integer.maxUnsigned64]; omega)]
      exact hback
    · have hread := Text.Integer.unsigned_eq_ok hs
        (show n.toNat ≤ Text.Integer.maxUnsigned64 by
          simp only [Text.Integer.maxUnsigned64]; omega)
      rw [flexibleUnsigned64, flexible_text (n := n.toNat) levels (by rw [hread]; rfl)]
      exact hback

theorem flexibleSigned64_reads (n : Int64) :
    Reads levels flexibleSigned64 (.signed64 n) (· = n) := by
  intro v hv
  have hleast := n.le_toInt
  have hgreatest := n.toInt_lt
  refine ⟨n, ?_, rfl⟩
  cases hv.renders with
  | scalar _ h =>
    obtain rfl | ⟨s, rfl, hs⟩ := h
    · rw [flexibleSigned64, flexible_number levels (by omega)
        (by simp only [Text.Integer.maxSigned64]; omega)]
      exact congrArg Except.ok (Int64.ofInt_toInt n)
    · have hread := Text.Integer.signed_eq_ok hs
        (show -((Text.Integer.maxSigned64 : Nat) + 1 : Int) ≤ n.toInt by
          simp only [Text.Integer.maxSigned64]; omega)
        (by simp only [Text.Integer.maxSigned64]; omega)
      rw [flexibleSigned64, flexible_text levels hread]
      exact congrArg Except.ok (Int64.ofInt_toInt n)

/-! ## Structures -/

/-- What may be left out is read if it is there. -/
theorem optional_reads {d : Decoder α} {shape : Shape} {good : α → Prop}
    (h : Reads levels d shape good) :
    Reads levels (optional d) shape fun o => ∃ a, o = some a ∧ good a := by
  intro v hv
  obtain ⟨a, ha, hgood⟩ := h v hv
  refine ⟨some a, ?_, a, rfl, hgood⟩
  rw [optional, ha]
  · rfl
  · exact hv.renders.ne_null

theorem optional_reads_eq {d : Decoder α} {shape : Shape} {a : α}
    (h : Reads levels d shape (· = a)) : Reads levels (optional d) shape (· = some a) := by
  refine (optional_reads h).imp fun o ho => ?_
  obtain ⟨-, rfl, rfl⟩ := ho
  rfl

/-- What may be there is read if it is. -/
theorem ofOption_reads {d : Decoder β} {shape : α → Shape} {good : α → β → Prop}
    (h : ∀ a, Reads levels d (shape a) (good a)) (o : Option α) :
    Reads levels (optional d) (.ofOption shape o) (Option.Rel good o) := by
  intro v hv
  cases o with
  | none =>
    cases hv.renders with
    | scalar _ hnever => exact hnever.elim
  | some a =>
    obtain ⟨-, ho, b, rfl, hgood⟩ := optional_reads (h a) v hv
    exact ⟨some b, ho, .some hgood⟩

/-- What may be there is read as it is. -/
theorem ofOption_reads_eq {d : Decoder α} {shape : α → Shape}
    (h : ∀ a, Reads levels d (shape a) (· = a)) (o : Option α) :
    Reads levels (optional d) (.ofOption shape o) (· = o) := by
  refine (ofOption_reads h o).imp fun o' ho => ?_
  cases ho with
  | none => rfl
  | some heq => exact congrArg some heq

/-- Any value is read as its settled form, which has the same shape. -/
theorem plain_reads (shape : Shape) : Reads levels plain shape (Fits shape maxLevels) := by
  intro v hv
  refine ⟨v.settled, settle_eq_ok v hv.within, Nat.le_refl _, ?_, hv.renders.settled⟩
  exact within_mono hv.atMost _ (within_settled v hv.within)

/-- A list is read item by item. -/
theorem list_reads {d : Decoder β} {shape : α → Shape} {good : α → β → Prop}
    (h : ∀ inner < levels, ∀ a, Reads inner d (shape a) (good a)) (as : List α) :
    Reads levels (list d) (.array (as.map shape)) (List.Forall₂ good as) := by
  intro v ⟨hmost, hwithin, hrenders⟩
  cases hrenders with
  | @array _ items hlength hitems =>
    obtain ⟨inner, rfl, hinner⟩ := within_array hwithin
    -- each item has one level less, and the list reads them one after another
    show ∃ bs, items.mapM (d inner) = .ok bs ∧ List.Forall₂ good as bs
    clear hwithin
    induction as generalizing items with
    | nil =>
      rw [List.map_nil, List.length_nil] at hlength
      rw [List.eq_nil_of_length_eq_zero hlength.symm]
      exact ⟨[], rfl, .nil⟩
    | cons a as ih =>
      cases items with
      | nil => cases hlength
      | cons item items =>
        rw [List.map_cons, List.zip_cons_cons] at hitems
        obtain ⟨hitem, hrest⟩ := List.forall_mem_cons.1 hitems
        obtain ⟨hfirst, hothers⟩ := List.forall_mem_cons.1 hinner
        obtain ⟨b, hb, hgood⟩ := h inner (by omega) a item ⟨by omega, hfirst, hitem⟩
        obtain ⟨bs, hbs, hall⟩ := ih (Nat.succ.inj hlength) hrest hothers
        exact ⟨b :: bs, Fallible.mapM_cons_ok hb hbs, .cons hgood hall⟩

/-- A list is read as it is. -/
theorem list_reads_eq {d : Decoder α} {shape : α → Shape}
    (h : ∀ inner < levels, ∀ a, Reads inner d (shape a) (· = a)) (as : List α) :
    Reads levels (list d) (.array (as.map shape)) (· = as) := by
  refine (list_reads h as).imp fun bs hbs => ?_
  induction hbs with
  | nil => rfl
  | cons heq _ ih => rw [heq, ih]

/-! ## Records

A record is folded over its members. The invariant of the fold is a condition for each name, which
the default meets and which setting the member establishes. -/

/-- Where no known name is repeated, the members of known names are found. -/
theorem known_eq_ok {names : List String} {members : List (String × Json)} {seen : List String}
    (once : ((members.map Prod.fst).filter fun n => names.contains n).Nodup)
    (hseen : ∀ n ∈ seen, n ∉ (members.map Prod.fst).filter fun n => names.contains n) :
    known names members seen = .ok (members.filter fun m => names.contains m.1) := by
  -- on the members, with the names seen before; those of the record are not seen twice
  induction members generalizing seen with
  | nil => rfl
  | cons m members ih =>
    obtain ⟨name, value⟩ := m
    rw [List.map_cons] at once hseen
    rw [known]
    by_cases hname : names.contains name = true
    · rw [List.filter_cons_of_pos hname] at once hseen
      obtain ⟨hnot, honce⟩ := List.nodup_cons.1 once
      have hfresh : seen.contains name = false := by
        rw [List.contains_eq_mem, decide_eq_false_iff_not]
        exact fun hmem => hseen name hmem List.mem_cons_self
      have hseen' : ∀ n ∈ name :: seen,
          n ∉ (members.map Prod.fst).filter fun n => names.contains n := by
        intro n hn
        obtain rfl | hn := List.mem_cons.1 hn
        · exact hnot
        · exact fun hmem => hseen n hn (List.mem_cons_of_mem _ hmem)
      have hfound : ((name, value) :: members).filter (fun m => names.contains m.1) =
          (name, value) :: members.filter fun m => names.contains m.1 :=
        List.filter_cons_of_pos hname
      rw [hname, hfresh, ih honce hseen', hfound]
      rfl
    -- an unknown member is skipped, and may stand there as often as it likes
    · rw [List.filter_cons_of_neg hname] at once hseen
      have hskipped : ((name, value) :: members).filter (fun m => names.contains m.1) =
          members.filter fun m => names.contains m.1 := List.filter_cons_of_neg hname
      rw [ih once hseen, hskipped, if_pos (by simpa using hname)]

section Record

variable {fields : List Field} {good : String → α → Prop}
  {set : Nat → α → String → Json → Except Fault α}

/-- Whether a field can be set from a value within some levels: then it is good, and what has
another one of the names is as good as before. -/
def Settable (levels : Nat) (names : List String)
    (set : Nat → α → String → Json → Except Fault α) (good : String → α → Prop) (f : Field) :
    Prop :=
  ∀ v : Json, Fits f.2.2 levels v → ∀ a, ∃ a', set levels a f.1 v = .ok a' ∧ good f.1 a' ∧
    ∀ name ∈ names, name ≠ f.1 → good name a → good name a'

/-- After members have been set, the fields are good that were good before or are among them. -/
theorem foldlM_set {names : List String} (hnames : fields.map Prod.fst ⊆ names)
    (hset : ∀ f ∈ fields, Settable levels names set good f) {members : List (String × Json)}
    (hmembers : ∀ m ∈ members, ∃ f ∈ fields, f.1 = m.1 ∧ Fits f.2.2 levels m.2)
    (start : α) (done : String → Prop) (hstart : ∀ f ∈ fields, done f.1 → good f.1 start) :
    ∃ a, members.foldlM (fun a m => set levels a m.1 m.2) start = .ok a ∧
      ∀ f ∈ fields, done f.1 ∨ f.1 ∈ members.map Prod.fst → good f.1 a := by
  -- what has been set stays good while other members are set, so `done` grows by each name
  induction members generalizing start done with
  | nil =>
    refine ⟨start, rfl, fun f hf hdone => hstart f hf (hdone.resolve_right ?_)⟩
    exact List.not_mem_nil
  | cons m members ih =>
    obtain ⟨hm, hmembers⟩ := List.forall_mem_cons.1 hmembers
    obtain ⟨f, hf, hname, hfits⟩ := hm
    obtain ⟨a', ha', hgood, hothers⟩ := hset f hf m.2 hfits start
    have hstart' : ∀ g ∈ fields, done g.1 ∨ g.1 = m.1 → good g.1 a' := by
      intro g hg hdone
      -- the field just set is good, and the others stay as good as they were
      by_cases hsame : g.1 = f.1
      · exact hsame ▸ hgood
      · have hbefore : done g.1 := hdone.resolve_right fun h => hsame (h.trans hname.symm)
        exact hothers g.1 (hnames (List.mem_map_of_mem hg)) hsame (hstart g hg hbefore)
    obtain ⟨a, ha, hall⟩ := ih hmembers a' (fun n => done n ∨ n = m.1) hstart'
    refine ⟨a, ?_, fun g hg hdone => hall g hg ?_⟩
    · rw [List.foldlM_cons, ← hname, ha']
      exact ha
    · rw [List.map_cons, List.mem_cons, ← or_assoc] at hdone
      exact hdone

/-- A record is read from its members of known names: each is one of the fields, none is there
twice, and the fields that are not there may be left out. -/
theorem record_of_fits (set : Nat → α → String → Json → Except Fault α) {names : List String}
    (hnames : fields.map Prod.fst ⊆ names) {v : Json}
    (hv : Fits (.object names fields) levels v) :
    ∃ inner < levels, ∃ members : List (String × Json),
      (∀ (least : Nat) (start : α), record names least start set levels v =
        members.foldlM (fun a m => set inner a m.1 m.2) start) ∧
      (members.map Prod.fst).Nodup ∧
      (∀ m ∈ members, ∃ f ∈ fields, f.1 = m.1 ∧ Fits f.2.2 inner m.2) ∧
      ∀ f ∈ fields, f.1 ∉ members.map Prod.fst → f.2.1 := by
  obtain ⟨hmost, hwithin, hrenders⟩ := hv
  cases hrenders with
  | @object _ _ members once known written omitted =>
    obtain ⟨inner, rfl, hinner⟩ := within_object hwithin
    refine ⟨inner, Nat.lt_succ_self inner, members.filter fun m => names.contains m.1,
      fun least start => ?_, ?_, fun m hm => ?_, fun f hf hnot => omitted f hf fun hmem => ?_⟩
    · rw [record, known_eq_ok once fun n hn => absurd hn List.not_mem_nil]
      rfl
    · rw [List.filter_map] at once
      exact once
    · obtain ⟨hm, hname⟩ := List.mem_filter.1 hm
      obtain ⟨f, hf, heq⟩ := known m hm (List.contains_iff_mem.1 hname)
      exact ⟨f, hf, heq, by omega, hinner m hm, written f hf m.2 (heq ▸ hm)⟩
    · obtain ⟨m, hm, heq⟩ := List.mem_map.1 hmem
      refine hnot (List.mem_map.2 ⟨m, List.mem_filter.2 ⟨hm, ?_⟩, heq⟩)
      exact List.contains_iff_mem.2 (heq ▸ hnames (List.mem_map_of_mem hf))

/-- A record is read member by member. -/
theorem record_reads {names : List String} {least : Nat} {start : α}
    (good : String → α → Prop) (hnames : fields.map Prod.fst ⊆ names)
    (hfields : ∀ f ∈ fields, (f.2.1 → good f.1 start) ∧
      ∀ inner < levels, Settable inner names set good f) :
    Reads levels (record names least start set) (.object names fields)
      fun a => ∀ f ∈ fields, good f.1 a := by
  intro v hv
  obtain ⟨inner, hinner, members, hrecord, -, hmembers, homitted⟩ :=
    record_of_fits set hnames hv
  -- what may be left out is good from the start, and the rest is there
  obtain ⟨a, ha, hall⟩ := foldlM_set hnames
    (fun f hf => (hfields f hf).2 inner hinner) hmembers start (fun n => good n start)
    fun f _ h => h
  refine ⟨a, (hrecord least start).trans ha, fun f hf => hall f hf ?_⟩
  by_cases hmem : f.1 ∈ members.map Prod.fst
  · exact .inr hmem
  · exact .inl ((hfields f hf).1 (homitted f hf hmem))

/-- A record with one field is read from it alone. -/
theorem record_single_reads {names : List String} {least : Nat} {start : α} {f : Field}
    (good : α → Prop) (hname : f.1 ∈ names) (hstart : f.2.1 → good start)
    (hset : ∀ inner < levels, Reads inner (fun inner v => set inner start f.1 v) f.2.2 good) :
    Reads levels (record names least start set) (.object names [f]) good := by
  intro v hv
  obtain ⟨inner, hinner, members, hrecord, hnodup, hmembers, homitted⟩ :=
    record_of_fits set (fun n hn => List.mem_singleton.1 hn ▸ hname) hv
  rw [hrecord]
  have hfield : ∀ m ∈ members, f.1 = m.1 ∧ Fits f.2.2 inner m.2 := by
    intro m hm
    obtain ⟨g, hg, heq, hfits⟩ := hmembers m hm
    obtain rfl := List.mem_singleton.1 hg
    exact ⟨heq, hfits⟩
  -- the record has one field, which is there once or not at all
  match members with
  | [] => exact ⟨start, rfl, hstart (homitted f List.mem_cons_self List.not_mem_nil)⟩
  | [m] =>
    obtain ⟨heq, hfits⟩ := hfield m List.mem_cons_self
    obtain ⟨a, ha, hgood⟩ := hset inner hinner m.2 hfits
    have hstep : set inner start f.1 m.2 = .ok a := ha
    refine ⟨a, ?_, hgood⟩
    rw [List.foldlM_cons, ← heq, hstep]
    rfl
  -- two members would both have the name of the only field
  | m :: m' :: rest =>
    have hsame : m.1 = m'.1 := (hfield m List.mem_cons_self).1.symm.trans
      (hfield m' (List.mem_cons_of_mem _ List.mem_cons_self)).1
    rw [List.map_cons, List.map_cons, hsame] at hnodup
    exact absurd List.mem_cons_self (List.nodup_cons.1 hnodup).1

/-- A record without fields is what it is at the start. -/
theorem record_empty_reads (names : List String) (least : Nat) (start : α)
    (set : Nat → α → String → Json → Except Fault α) :
    Reads levels (record names least start set) (.object names []) (· = start) := by
  intro v hv
  obtain ⟨inner, -, members, hrecord, -, hmembers, -⟩ :=
    record_of_fits set (List.nil_subset names) hv
  rw [hrecord]
  cases members with
  | nil => exact ⟨start, rfl, rfl⟩
  | cons m members =>
    obtain ⟨f, hf, -⟩ := hmembers m List.mem_cons_self
    exact absurd hf List.not_mem_nil

end Record

end Decoder

end Telemetry.Json
