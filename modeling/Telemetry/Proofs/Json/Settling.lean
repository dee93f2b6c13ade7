import Telemetry.Json.Basic
import Telemetry.Proofs.Dictionary
import Telemetry.Proofs.Fallible

/-!
What a value is when it has been settled.

A value that is nested no deeper than allowed and has no unreadable part can be settled. What it
becomes does not depend on the levels: each of its objects has the same names as before, once each
and in ascending order, and below each name the settled form of a value that stood there.
-/

set_option autoImplicit false

namespace Telemetry.Json

/-! ## Values that can be settled -/

mutual

/-- Whether arrays and objects are nested no more than `levels` deep and every part has a value. -/
def within (levels : Nat) : Json → Bool
  | .array items => levels != 0 && withinItems (levels - 1) items
  | .object members => levels != 0 && withinMembers (levels - 1) members
  | .unreadable => false
  | .null | .bool _ | .number _ | .string _ => true

/-- Whether this is so for the items of an array. -/
def withinItems (levels : Nat) : List Json → Bool
  | [] => true
  | item :: items => within levels item && withinItems levels items

/-- Whether this is so for the members of an object. -/
def withinMembers (levels : Nat) : List (String × Json) → Bool
  | [] => true
  | (_, value) :: members => within levels value && withinMembers levels members

end

theorem withinItems_iff {levels : Nat} {items : List Json} :
    withinItems levels items = true ↔ ∀ v ∈ items, within levels v = true := by
  induction items with
  | nil => simp [withinItems]
  | cons item items ih => simp [withinItems, ih]

theorem withinMembers_iff {levels : Nat} {members : List (String × Json)} :
    withinMembers levels members = true ↔ ∀ m ∈ members, within levels m.2 = true := by
  induction members with
  | nil => simp [withinMembers]
  | cons m members ih => simp [withinMembers, ih]

/-- An array takes one level for itself. -/
theorem within_array {levels : Nat} {items : List Json}
    (h : within levels (.array items) = true) :
    ∃ inner, levels = inner + 1 ∧ ∀ v ∈ items, within inner v = true := by
  rw [within, Bool.and_eq_true, bne_iff_ne, withinItems_iff] at h
  exact ⟨levels - 1, by omega, h.2⟩

theorem within_object {levels : Nat} {members : List (String × Json)}
    (h : within levels (.object members) = true) :
    ∃ inner, levels = inner + 1 ∧ ∀ m ∈ members, within inner m.2 = true := by
  rw [within, Bool.and_eq_true, bne_iff_ne, withinMembers_iff] at h
  exact ⟨levels - 1, by omega, h.2⟩

mutual

/-- What is within a depth is within a greater one. -/
theorem within_mono {levels levels' : Nat} (hle : levels ≤ levels') :
    ∀ v : Json, within levels v = true → within levels' v = true
  | .array items, h => by
    rw [within, Bool.and_eq_true, bne_iff_ne] at h ⊢
    exact ⟨by omega, withinItems_mono (by omega) items h.2⟩
  | .object members, h => by
    rw [within, Bool.and_eq_true, bne_iff_ne] at h ⊢
    exact ⟨by omega, withinMembers_mono (by omega) members h.2⟩
  | .unreadable, h => h
  | .null, _ | .bool _, _ | .number _, _ | .string _, _ => rfl

theorem withinItems_mono {levels levels' : Nat} (hle : levels ≤ levels') :
    ∀ items : List Json, withinItems levels items = true → withinItems levels' items = true
  | [], _ => rfl
  | item :: items, h => by
    rw [withinItems, Bool.and_eq_true] at h ⊢
    exact ⟨within_mono hle item h.1, withinItems_mono hle items h.2⟩

theorem withinMembers_mono {levels levels' : Nat} (hle : levels ≤ levels') :
    ∀ members : List (String × Json),
      withinMembers levels members = true → withinMembers levels' members = true
  | [], _ => rfl
  | (_, value) :: members, h => by
    rw [withinMembers, Bool.and_eq_true] at h ⊢
    exact ⟨within_mono hle value h.1, withinMembers_mono hle members h.2⟩

end

/-! ## What they become

Settling gives the same value at every level at which it succeeds. So what a value becomes is
defined without levels, and the levels only decide whether it becomes that. -/

mutual

/-- The settled form of a value. -/
def settled : Json → Json
  | .array items => .array (settledItems items)
  | .object members => .object (settledMembers [] members)
  | .null => .null
  | .bool b => .bool b
  | .number n => .number n
  | .string s => .string s
  | .unreadable => .unreadable

/-- The settled forms of the items of an array. -/
def settledItems : List Json → List Json
  | [] => []
  | item :: items => settled item :: settledItems items

/-- The settled forms of members, put at their places among others. -/
def settledMembers (sofar : List (String × Json)) : List (String × Json) → List (String × Json)
  | [] => sofar
  | (name, value) :: members => settledMembers (putMember name (settled value) sofar) members

end

theorem settledItems_eq_map (items : List Json) : settledItems items = items.map settled := by
  induction items with
  | nil => rfl
  | cons item items ih => rw [settledItems, ih, List.map_cons]

mutual

/-- A value within the levels is settled. -/
theorem settle_eq_ok {levels : Nat} :
    ∀ v : Json, within levels v = true → settle levels v = .ok (settled v)
  | .array items, h => by
    obtain ⟨inner, rfl, hinner⟩ := within_array h
    rw [settle, if_neg (Nat.succ_ne_zero inner), Nat.add_sub_cancel,
      settleItems_eq_ok items (withinItems_iff.2 hinner)]
    rfl
  | .object members, h => by
    obtain ⟨inner, rfl, hinner⟩ := within_object h
    rw [settle, if_neg (Nat.succ_ne_zero inner), Nat.add_sub_cancel,
      settleMembers_eq_ok [] members (withinMembers_iff.2 hinner)]
    rfl
  | .unreadable, h => by cases h
  | .null, _ | .bool _, _ | .number _, _ | .string _, _ => rfl

/-- Items within the depth are settled without an error. -/
theorem settleItems_eq_ok {levels : Nat} :
    ∀ items : List Json, withinItems levels items = true →
      settleItems levels items = .ok (settledItems items)
  | [], _ => rfl
  | item :: items, h => by
    rw [withinItems, Bool.and_eq_true] at h
    rw [settleItems, settle_eq_ok item h.1, settleItems_eq_ok items h.2]
    rfl

theorem settleMembers_eq_ok {levels : Nat} (sofar : List (String × Json)) :
    ∀ members : List (String × Json), withinMembers levels members = true →
      settleMembers levels sofar members = .ok (settledMembers sofar members)
  | [], _ => rfl
  | (name, value) :: members, h => by
    rw [withinMembers, Bool.and_eq_true] at h
    rw [settleMembers, settle_eq_ok value h.1]
    exact settleMembers_eq_ok (putMember name (settled value) sofar) members h.2

end

mutual

/-- Only a value within the levels is settled. -/
theorem within_of_settle {levels : Nat} :
    ∀ v w : Json, settle levels v = .ok w → within levels v = true
  | .array items, w, h => by
    rw [settle] at h
    split at h
    next => cases h
    next hlevels =>
      obtain ⟨ws, hws, -⟩ := Fallible.map_eq_ok h
      rw [within, withinItems_of_settleItems items ws hws, Bool.and_true, bne_iff_ne]
      exact hlevels
  | .object members, w, h => by
    rw [settle] at h
    split at h
    next => cases h
    next hlevels =>
      obtain ⟨ms, hms, -⟩ := Fallible.map_eq_ok h
      rw [within, withinMembers_of_settleMembers [] members ms hms, Bool.and_true, bne_iff_ne]
      exact hlevels
  | .unreadable, _, h => by cases h
  | .null, _, _ | .bool _, _, _ | .number _, _, _ | .string _, _, _ => rfl

/-- Only items within the depth are settled. -/
theorem withinItems_of_settleItems {levels : Nat} :
    ∀ items ws : List Json, settleItems levels items = .ok ws → withinItems levels items = true
  | [], _, _ => rfl
  | item :: items, ws, h => by
    rw [settleItems] at h
    obtain ⟨w, hw, hrest⟩ := Fallible.bind_eq_ok h
    obtain ⟨ws', hws', -⟩ := Fallible.bind_eq_ok hrest
    rw [withinItems, within_of_settle item w hw, withinItems_of_settleItems items ws' hws']
    rfl

/-- Only members within the depth are settled. -/
theorem withinMembers_of_settleMembers {levels : Nat} (sofar : List (String × Json)) :
    ∀ members ms : List (String × Json), settleMembers levels sofar members = .ok ms →
      withinMembers levels members = true
  | [], _, _ => rfl
  | (name, value) :: members, ms, h => by
    rw [settleMembers] at h
    obtain ⟨w, hw, hrest⟩ := Fallible.bind_eq_ok h
    rw [withinMembers, within_of_settle value w hw,
      withinMembers_of_settleMembers _ members ms hrest]
    rfl

end

/-- **When a value is settled, and as what.** Exactly if it is within the depth; the result does
not depend on the depth. -/
theorem settle_eq_ok_iff {levels : Nat} {v w : Json} :
    settle levels v = .ok w ↔ within levels v = true ∧ w = settled v := by
  constructor
  · intro h
    have hwithin := within_of_settle v w h
    rw [settle_eq_ok v hwithin] at h
    exact ⟨hwithin, (Except.ok.inj h).symm⟩
  · rintro ⟨hwithin, rfl⟩
    exact settle_eq_ok v hwithin

/-! ## Members at their places

Members are put in order one after another, each behind or in place of the earlier ones. What is
left in the end is ascending, with the last value for each name. -/

/-- Members are put at their places like bindings of a dictionary. -/
theorem putMember_eq_insertEntry (name : String) (value : Json) (members : List (String × Json)) :
    putMember name value members = Dictionary.insertEntry name value members := by
  induction members with
  | nil => rfl
  | cons m members ih => rw [putMember, Dictionary.insertEntry, ih]

/-- A member comes last if its name is behind all others. -/
theorem putMember_of_lt {name : String} {value : Json} {members : List (String × Json)}
    (h : ∀ m ∈ members, m.1 < name) :
    putMember name value members = members ++ [(name, value)] := by
  induction members with
  | nil => rfl
  | cons m members ih =>
    obtain ⟨hlt, hrest⟩ := List.forall_mem_cons.1 h
    rw [putMember, if_neg (String.lt_asymm hlt), if_neg fun heq => String.lt_irrefl _ (heq ▸ hlt),
      ih hrest]
    rfl

/-- A settled member has the name of a member that was there before or is added, and its value or
the settled form of its value. -/
theorem mem_settledMembers {sofar members : List (String × Json)} {m : String × Json}
    (h : m ∈ settledMembers sofar members) :
    m ∈ sofar ∨ ∃ v, (m.1, v) ∈ members ∧ m.2 = settled v := by
  induction members generalizing sofar with
  | nil => exact .inl h
  | cons head members ih =>
    obtain ⟨name, value⟩ := head
    rw [settledMembers] at h
    obtain hput | ⟨v, hv, heq⟩ := ih h
    · rw [putMember_eq_insertEntry] at hput
      obtain rfl | hsofar := Dictionary.fst_mem_insertEntry hput
      · exact .inr ⟨value, List.mem_cons_self, rfl⟩
      · exact .inl hsofar
    · exact .inr ⟨v, List.mem_cons_of_mem _ hv, heq⟩

/-- Putting a member in adds its name, if it is new. -/
theorem mem_keys_insertEntry {name : String} {value : Json} {members : List (String × Json)}
    {n : String} :
    n ∈ (Dictionary.insertEntry name value members).map Prod.fst ↔
      n = name ∨ n ∈ members.map Prod.fst := by
  induction members with
  | nil => simp [Dictionary.insertEntry]
  | cons head members ih =>
    rw [Dictionary.insertEntry]
    split
    · simp
    · split
      next heq => simp [heq]
      next =>
        rw [List.map_cons, List.mem_cons, ih, List.map_cons, List.mem_cons]
        exact or_left_comm

/-- Settling neither adds nor drops a name. -/
theorem mem_names_settledMembers {sofar members : List (String × Json)} {n : String} :
    n ∈ (settledMembers sofar members).map Prod.fst ↔
      n ∈ sofar.map Prod.fst ∨ n ∈ members.map Prod.fst := by
  induction members generalizing sofar with
  | nil => simp [settledMembers]
  | cons head members ih =>
    obtain ⟨name, value⟩ := head
    rw [settledMembers, ih, putMember_eq_insertEntry, mem_keys_insertEntry, List.map_cons,
      List.mem_cons, or_assoc, or_left_comm]

/-- Settled members ascend by name. -/
theorem settledMembers_ascending {sofar : List (String × Json)} (members : List (String × Json))
    (h : sofar.Pairwise fun a b => a.1 < b.1) :
    (settledMembers sofar members).Pairwise fun a b => a.1 < b.1 := by
  induction members generalizing sofar with
  | nil => exact h
  | cons head members ih =>
    obtain ⟨name, value⟩ := head
    rw [settledMembers]
    refine ih ?_
    rw [putMember_eq_insertEntry]
    exact Dictionary.insertEntry_ascending h

/-- No name is repeated among settled members. -/
theorem nodup_names_settledMembers (members : List (String × Json)) :
    ((settledMembers [] members).map Prod.fst).Nodup := by
  -- the names ascend, so no two are equal
  have hascending := settledMembers_ascending members List.Pairwise.nil
  rw [List.nodup_iff_pairwise_ne, List.pairwise_map]
  refine hascending.imp ?_
  intro a b hlt heq
  exact String.lt_irrefl b.1 (heq ▸ hlt)

/-! ## Settling once more

A settled value is its own settled form, since its members are in order already. -/

/-- Members in order that come behind all others stay as they are. -/
theorem settledMembers_append {sofar members : List (String × Json)}
    (hascending : (sofar ++ members).Pairwise fun a b => a.1 < b.1)
    (hfixed : ∀ m ∈ members, settled m.2 = m.2) :
    settledMembers sofar members = sofar ++ members := by
  induction members generalizing sofar with
  | nil => rw [settledMembers, List.append_nil]
  | cons m members ih =>
    obtain ⟨name, value⟩ := m
    obtain ⟨hvalue, hfixed⟩ := List.forall_mem_cons.1 hfixed
    have hput : putMember name value sofar = sofar ++ [(name, value)] := by
      refine putMember_of_lt fun n hn => ?_
      exact (List.pairwise_append.1 hascending).2.2 n hn (name, value) List.mem_cons_self
    rw [List.append_cons] at hascending ⊢
    rw [settledMembers, show settled value = value from hvalue, hput]
    exact ih hascending hfixed

mutual

/-- What has been settled stays as it is. -/
theorem settled_settled : ∀ v : Json, settled (settled v) = settled v
  | .array items => by
    rw [settled, settled, settledItems_settledItems items]
  | .object members => by
    rw [settled, settled]
    have hascending := settledMembers_ascending members List.Pairwise.nil
    rw [settledMembers_append (by rwa [List.nil_append]), List.nil_append]
    intro m hm
    obtain hnil | ⟨v, hv, heq⟩ := mem_settledMembers hm
    · cases hnil
    · rw [heq]
      exact settled_settled_of_mem members _ hv
  | .null | .bool _ | .number _ | .string _ | .unreadable => rfl

/-- Settling items again changes nothing. -/
theorem settledItems_settledItems :
    ∀ items : List Json, settledItems (settledItems items) = settledItems items
  | [] => rfl
  | item :: items => by
    rw [settledItems, settledItems, settled_settled item, settledItems_settledItems items]

/-- Settling the value of a member again changes nothing. -/
theorem settled_settled_of_mem :
    ∀ (members : List (String × Json)) (m : String × Json), m ∈ members →
      settled (settled m.2) = settled m.2
  | [], _, h => nomatch h
  | (name, value) :: members, m, h => by
    obtain rfl | h := List.mem_cons.1 h
    · exact settled_settled value
    · exact settled_settled_of_mem members m h

end

/-! ## Levels of settled values -/

mutual

/-- Settling adds no levels. -/
theorem within_settled {levels : Nat} :
    ∀ v : Json, within levels v = true → within levels (settled v) = true
  | .array items, h => by
    obtain ⟨inner, rfl, hinner⟩ := within_array h
    rw [settled, within, Bool.and_eq_true]
    exact ⟨rfl, withinItems_settledItems items (withinItems_iff.2 hinner)⟩
  | .object members, h => by
    obtain ⟨inner, rfl, hinner⟩ := within_object h
    rw [settled, within, Bool.and_eq_true]
    exact ⟨rfl, withinMembers_settledMembers [] members rfl (withinMembers_iff.2 hinner)⟩
  | .unreadable, h => by cases h
  | .null, _ | .bool _, _ | .number _, _ | .string _, _ => rfl

/-- Settled items are no deeper than they were. -/
theorem withinItems_settledItems {levels : Nat} :
    ∀ items : List Json, withinItems levels items = true →
      withinItems levels (settledItems items) = true
  | [], _ => rfl
  | item :: items, h => by
    rw [withinItems, Bool.and_eq_true] at h
    rw [settledItems, withinItems, Bool.and_eq_true]
    exact ⟨within_settled item h.1, withinItems_settledItems items h.2⟩

/-- Settled members are no deeper than they were, of which the last of each name stays. -/
theorem withinMembers_settledMembers {levels : Nat} (sofar : List (String × Json)) :
    ∀ members : List (String × Json), withinMembers levels sofar = true →
      withinMembers levels members = true →
      withinMembers levels (settledMembers sofar members) = true
  | [], hsofar, _ => hsofar
  | (name, value) :: members, hsofar, h => by
    rw [withinMembers, Bool.and_eq_true] at h
    have hvalue := within_settled value h.1
    -- the members put so far stay within the levels with the new one among them
    have hput : withinMembers levels (putMember name (settled value) sofar) = true := by
      rw [withinMembers_iff, putMember_eq_insertEntry]
      intro m hm
      obtain rfl | hm := Dictionary.fst_mem_insertEntry hm
      · exact hvalue
      · exact withinMembers_iff.1 hsofar m hm
    exact withinMembers_settledMembers _ members hput h.2

end

end Telemetry.Json
