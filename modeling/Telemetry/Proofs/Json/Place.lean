import Telemetry.Json.Reader
import Telemetry.Proofs.Json.Settling

/-!
Places inside JSON values.

A value with a hole is known by its frames, from the outside in: an array around an item, or an
object around a member. Steps say which item or member of a record is meant, without what else is
there. How deep a value may be at a place depends on the number of frames only (`within_fill`), and
settling a value settles what is at a place in it, unless that does not count because its member is
there once more (`settled_fill`).
-/

set_option autoImplicit false

namespace Telemetry.Json

/-! ## Places -/

/-- What stands directly around a value. -/
inductive Frame where
  | item (before after : List Json)
  | member (before : List (String × Json)) (name : String) (after : List (String × Json))

/-- Puts a value into a frame. -/
def Frame.fill : Frame → Json → Json
  | .item before after, v => .array (before ++ v :: after)
  | .member before name after, v => .object (before ++ (name, v) :: after)

/-- The frames around a place, the outermost first. -/
abbrev Place := List Frame

/-- Puts a value at a place. -/
def Place.fill (place : Place) (v : Json) : Json := place.foldr Frame.fill v

theorem Place.fill_append (place place' : Place) (v : Json) :
    Place.fill (place ++ place') v = place.fill (place'.fill v) := List.foldr_append

/-- A step to an item of a list, or to a member of a record with these names. -/
inductive Step where
  | item
  | member (names : List String) (name : String)

/-- Whether a frame is around what a step leads to. Records may also be arrays, whose items are then
the members in the order of their names. -/
def Frame.Takes : Frame → Step → Prop
  | .item _ _, .item => True
  | .item before _, .member names name => names[before.length]? = some name
  | .member _ n _, .member _ name => n = name
  | .member _ _ _, .item => False

/-- Whether steps lead to a place. -/
def Place.Follows (place : Place) (path : List Step) : Prop := List.Forall₂ Frame.Takes place path

/-! ## Comparing values -/

mutual

/-- Compares two values; doubles are not compared. -/
def agrees : Json → Json → Bool
  | .null, .null | .unreadable, .unreadable => true
  | .bool b, .bool b' => b == b'
  | .number (.whole n), .number (.whole n') => n == n'
  | .string s, .string s' => s == s'
  | .array items, .array items' => agreesItems items items'
  | .object members, .object members' => agreesMembers members members'
  | _, _ => false

/-- Compares the items of two arrays. -/
def agreesItems : List Json → List Json → Bool
  | [], [] => true
  | v :: vs, w :: ws => agrees v w && agreesItems vs ws
  | _, _ => false

/-- Compares the members of two objects. -/
def agreesMembers : List (String × Json) → List (String × Json) → Bool
  | [], [] => true
  | (name, v) :: vs, (name', w) :: ws => name == name' && agrees v w && agreesMembers vs ws
  | _, _ => false

end

mutual

/-- Values that are found to agree are equal. -/
theorem eq_of_agrees : ∀ v w : Json, agrees v w = true → v = w
  | .null, .null, _ | .unreadable, .unreadable, _ => rfl
  | .bool b, .bool b', h => congrArg _ (beq_iff_eq.1 h)
  | .number (.whole n), .number (.whole n'), h => by rw [beq_iff_eq.1 h]
  | .string s, .string s', h => congrArg _ (beq_iff_eq.1 h)
  | .array items, .array items', h => congrArg _ (eq_of_agreesItems items items' h)
  | .object members, .object members', h => congrArg _ (eq_of_agreesMembers members members' h)

/-- The same for items. -/
theorem eq_of_agreesItems : ∀ vs ws : List Json, agreesItems vs ws = true → vs = ws
  | [], [], _ => rfl
  | v :: vs, w :: ws, h => by
    obtain ⟨hv, hvs⟩ := Bool.and_eq_true_iff.1 h
    rw [eq_of_agrees v w hv, eq_of_agreesItems vs ws hvs]

/-- The same for members. -/
theorem eq_of_agreesMembers :
    ∀ vs ws : List (String × Json), agreesMembers vs ws = true → vs = ws
  | [], [], _ => rfl
  | (name, v) :: vs, (name', w) :: ws, h => by
    obtain ⟨hv, hvs⟩ := Bool.and_eq_true_iff.1 h
    obtain ⟨hname, hv⟩ := Bool.and_eq_true_iff.1 hv
    rw [beq_iff_eq.1 hname, eq_of_agrees v w hv, eq_of_agreesMembers vs ws hvs]

end

/-- Whether a text is read to a value, as far as can be compared. -/
def readsAs (body : List UInt8) (v : Json) : Bool :=
  match read body with
  | .ok w => agrees w v
  | .error _ => false

/-- A body that is found to hold a value does. -/
theorem read_of_readsAs {body : List UInt8} {v : Json} (h : readsAs body v = true) :
    read body = .ok v := by
  rw [readsAs] at h
  split at h
  next w hw => exact hw.trans (congrArg _ (eq_of_agrees w v h))
  next => cases h

/-! ## Settling at a place -/

/-- Whether a value at a place is within some levels: that is known of what is around the place, and
the value is within the levels that are left there. -/
theorem within_fill (levels : Nat) (place : Place) :
    ∃ around : Prop, ∀ v,
      within (levels + place.length) (place.fill v) = true ↔ around ∧ within levels v = true := by
  -- from the outside in: each frame takes a level, and its other parts have to be within what is
  -- left
  induction place with
  | nil => exact ⟨True, fun v => (iff_of_eq (true_and _)).symm⟩
  | cons frame place ih =>
    obtain ⟨around, haround⟩ := ih
    have hfill (v : Json) : Place.fill (frame :: place) v = frame.fill (Place.fill place v) := rfl
    have hlevels : levels + (frame :: place).length = levels + place.length + 1 := rfl
    cases frame with
    | item before after =>
      refine ⟨(∀ v ∈ before, within (levels + place.length) v = true) ∧
        (∀ v ∈ after, within (levels + place.length) v = true) ∧ around, fun v => ?_⟩
      rw [hfill, Frame.fill, hlevels, within, Bool.and_eq_true, withinItems_iff,
        Nat.add_sub_cancel, List.forall_mem_append, List.forall_mem_cons, haround]
      simp only [bne_iff_ne, ne_eq, Nat.add_one_ne_zero, not_false_eq_true, true_and]
      tauto
    | member before name after =>
      refine ⟨(∀ m ∈ before, within (levels + place.length) m.2 = true) ∧
        (∀ m ∈ after, within (levels + place.length) m.2 = true) ∧ around, fun v => ?_⟩
      rw [hfill, Frame.fill, hlevels, within, Bool.and_eq_true, withinMembers_iff,
        Nat.add_sub_cancel, List.forall_mem_append, List.forall_mem_cons, haround]
      simp only [bne_iff_ne, ne_eq, Nat.add_one_ne_zero, not_false_eq_true, true_and]
      tauto

/-- Members are settled one after another. -/
theorem settledMembers_append_members (sofar members members' : List (String × Json)) :
    settledMembers sofar (members ++ members') =
      settledMembers (settledMembers sofar members) members' := by
  induction members generalizing sofar with
  | nil => rfl
  | cons m members ih => exact ih _

/-- A member has its place among members in order, and those before and behind it are the same
whatever its value. -/
theorem putMember_fill (name : String) {members : List (String × Json)}
    (h : members.Pairwise fun a b => a.1 < b.1) :
    ∃ front back, (∀ m ∈ front, m.1 < name) ∧
      ∀ x, putMember name x members = front ++ (name, x) :: back := by
  -- the place of a name among members that ascend depends on the name only
  induction members with
  | nil => exact ⟨[], [], List.forall_mem_nil _, fun x => rfl⟩
  | cons m members ih =>
    obtain ⟨n, y⟩ := m
    obtain ⟨hn, hmembers⟩ := List.pairwise_cons.1 h
    by_cases hlt : name < n
    · refine ⟨[], (n, y) :: members, List.forall_mem_nil _, fun x => ?_⟩
      rw [putMember, if_pos hlt]
      rfl
    · by_cases heq : name = n
      · refine ⟨[], members, List.forall_mem_nil _, fun x => ?_⟩
        rw [putMember, if_neg hlt, if_pos heq]
        rfl
      · obtain ⟨front, back, hfront, hput⟩ := ih hmembers
        refine ⟨(n, y) :: front, back, List.forall_mem_cons.2 ⟨?_, hfront⟩, fun x => ?_⟩
        · exact Std.lt_of_le_of_ne (String.not_lt.1 hlt) (Ne.symm heq)
        · rw [putMember, if_neg hlt, if_neg heq, hput]
          rfl

/-- A member that is put next either replaces it or comes before or behind it. -/
theorem putMember_beside (n name : String) (y : Json) {front : List (String × Json)}
    (back : List (String × Json)) (hfront : ∀ m ∈ front, m.1 < name) :
    (∃ fixed, ∀ x, putMember n y (front ++ (name, x) :: back) = fixed) ∨
      ∃ front' back', (∀ m ∈ front', m.1 < name) ∧
        ∀ x, putMember n y (front ++ (name, x) :: back) = front' ++ (name, x) :: back' := by
  -- another name goes before the hole or behind it; the same name closes the hole
  induction front with
  | nil =>
    by_cases hlt : n < name
    · refine .inr ⟨[(n, y)], back, List.forall_mem_singleton.2 hlt, fun x => ?_⟩
      rw [List.nil_append, putMember, if_pos hlt]
      rfl
    · by_cases heq : n = name
      · exact .inl ⟨_, fun x => by rw [List.nil_append, putMember, if_neg hlt, if_pos heq]⟩
      · refine .inr ⟨[], putMember n y back, List.forall_mem_nil _, fun x => ?_⟩
        rw [List.nil_append, putMember, if_neg hlt, if_neg heq]
        rfl
  | cons m front ih =>
    obtain ⟨k, z⟩ := m
    obtain ⟨hk, hrest⟩ := List.forall_mem_cons.1 hfront
    have hcons (x : Json) : (k, z) :: front ++ (name, x) :: back =
        (k, z) :: (front ++ (name, x) :: back) := rfl
    by_cases hlt : n < k
    · refine .inr ⟨(n, y) :: (k, z) :: front, back, ?_, fun x => ?_⟩
      · exact List.forall_mem_cons.2 ⟨String.lt_trans hlt hk, hfront⟩
      · rw [hcons, putMember, if_pos hlt]
        rfl
    · by_cases heq : n = k
      · refine .inr ⟨(n, y) :: front, back, List.forall_mem_cons.2 ⟨heq ▸ hk, hrest⟩, fun x => ?_⟩
        rw [hcons, putMember, if_neg hlt, if_pos heq]
        rfl
      · obtain ⟨fixed, hfixed⟩ | ⟨front', back', hfront', hput⟩ := ih hrest
        · exact .inl ⟨(k, z) :: fixed, fun x => by
            rw [hcons, putMember, if_neg hlt, if_neg heq, hfixed]⟩
        · refine .inr ⟨(k, z) :: front', back', List.forall_mem_cons.2 ⟨hk, hfront'⟩, fun x => ?_⟩
          rw [hcons, putMember, if_neg hlt, if_neg heq, hput]
          rfl

/-- So do all members that are put after it. -/
theorem settledMembers_beside (name : String) (members : List (String × Json))
    {front : List (String × Json)} (back : List (String × Json))
    (hfront : ∀ m ∈ front, m.1 < name) :
    (∃ fixed, ∀ x, settledMembers (front ++ (name, x) :: back) members = fixed) ∨
      ∃ front' back', ∀ x,
        settledMembers (front ++ (name, x) :: back) members = front' ++ (name, x) :: back' := by
  induction members generalizing front back with
  | nil => exact .inr ⟨front, back, fun x => rfl⟩
  | cons m members ih =>
    obtain ⟨n, y⟩ := m
    simp only [settledMembers]
    obtain ⟨fixed, hfixed⟩ | ⟨front', back', hfront', hput⟩ :=
      putMember_beside n name (settled y) back hfront
    · exact .inl ⟨settledMembers fixed members, fun x => by rw [hfixed]⟩
    · simp only [hput]
      exact ih back' hfront'

/-- A value in a frame is settled in a frame of the same kind, unless it is the value of a member
that is there once more and so does not count. -/
theorem settled_frame {frame : Frame} {step : Step} (hframe : frame.Takes step) :
    (∃ fixed, ∀ v, settled (frame.fill v) = fixed) ∨
      ∃ frame' : Frame, frame'.Takes step ∧
        ∀ v, settled (frame.fill v) = frame'.fill (settled v) := by
  -- items stay where they are, members are put in order and may be replaced by a later one
  cases frame with
  | item before after =>
    refine .inr ⟨.item (before.map settled) (after.map settled), ?_, fun v => ?_⟩
    · cases step with
      | item => trivial
      | member names name =>
        show names[(before.map settled).length]? = some name
        rw [List.length_map]
        exact hframe
    · rw [Frame.fill, settled, settledItems_eq_map, List.map_append, List.map_cons]
      rfl
  | member before name after =>
    have hascending : (settledMembers [] before).Pairwise fun a b => a.1 < b.1 :=
      settledMembers_ascending before List.Pairwise.nil
    obtain ⟨front, back, hfront, hput⟩ := putMember_fill name hascending
    have hsettled (v : Json) : settled ((Frame.member before name after).fill v) =
        .object (settledMembers (front ++ (name, settled v) :: back) after) := by
      rw [Frame.fill, settled, settledMembers_append_members, settledMembers, hput]
    obtain ⟨fixed, hfixed⟩ | ⟨front', back', hmembers⟩ :=
      settledMembers_beside name after back hfront
    · exact .inl ⟨.object fixed, fun v => by rw [hsettled, hfixed]⟩
    · refine .inr ⟨.member front' name back', ?_, fun v => by rw [hsettled, hmembers]; rfl⟩
      cases step with
      | item => exact hframe
      | member names name' => exact hframe

/-- What is around a place is settled to what is around a place of the same path, unless the value
there does not count at all. -/
theorem settled_fill {place : Place} {path : List Step} (hplace : place.Follows path) :
    (∃ fixed, ∀ v, settled (place.fill v) = fixed) ∨
      ∃ place' : Place, place'.Follows path ∧
        ∀ v, settled (place.fill v) = place'.fill (settled v) := by
  induction hplace with
  | nil => exact .inr ⟨[], .nil, fun v => rfl⟩
  | @cons frame step place path hframe _ ih =>
    have hfill (v : Json) : Place.fill (frame :: place) v = frame.fill (Place.fill place v) := rfl
    simp only [hfill]
    obtain ⟨fixed, hfixed⟩ | ⟨frame', hframe', hsettled⟩ := settled_frame hframe
    · exact .inl ⟨fixed, fun v => hfixed _⟩
    · obtain ⟨fixed, hfixed⟩ | ⟨place', hplace', hrest⟩ := ih
      · exact .inl ⟨frame'.fill fixed, fun v => by rw [hsettled, hfixed]⟩
      · exact .inr ⟨frame' :: place', .cons hframe' hplace', fun v => by rw [hsettled, hrest]; rfl⟩

end Telemetry.Json
