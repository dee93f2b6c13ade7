import Telemetry.Proofs.Dictionary
import Telemetry.Proofs.Fallible
import Telemetry.Proofs.Text.Utf8
import Telemetry.Record.Json

/-!
Labels that are written as a JSON object are read as the same labels.

A string is written character by character, and what is written of one character is read in some
number of steps, to pieces that stand for this character whatever follows them (`Spells`). So
strings are read as they were written, whichever characters they are made of, then members, and then
objects of strings.
-/

set_option autoImplicit false

namespace Telemetry.Json

open Text.Utf8 (encode encodeChar encode_append)

/-! ## Characters of a string -/

/-- The characters of a text as they stand in a string. -/
def escaped (cs : List Char) : List Char := cs.flatMap fun c => (escape c).toList

/-- A text in quotes, character by character. -/
theorem toList_quote (s : String) : (quote s).toList = '"' :: (escaped s.toList ++ ['"']) := by
  have hfold (cs : List Char) (text : String) :
      (cs.foldl (fun text c => text ++ escape c) text).toList = text.toList ++ escaped cs := by
    induction cs generalizing text with
    | nil => simp [escaped]
    | cons c cs ih => simp [ih, escaped, List.append_assoc]
  rw [quote, String.toList_append, hfold]
  rfl

theorem encode_quote (s : String) :
    encode (quote s).toList = 0x22 :: (encode (escaped s.toList) ++ [0x22]) := by
  rw [toList_quote, ← List.singleton_append, encode_append, encode_append]
  rfl

namespace Reader

/-- Whether bytes in a string are read as pieces, whatever stands around them. -/
def Yields (bs : List UInt8) (ps : List Piece) : Prop :=
  ∃ n ≤ bs.length, ∀ fuel acc rest,
    pieces (fuel + n) acc (bs ++ rest) = pieces fuel (ps.reverse ++ acc) rest

theorem yields_nil : Yields [] [] := ⟨0, Nat.le_refl 0, fun _ _ _ => rfl⟩

theorem Yields.append {bs bs' : List UInt8} {ps ps' : List Piece} (h : Yields bs ps)
    (h' : Yields bs' ps') : Yields (bs ++ bs') (ps ++ ps') := by
  obtain ⟨n, hn, hread⟩ := h
  obtain ⟨n', hn', hread'⟩ := h'
  refine ⟨n' + n, by rw [List.length_append]; omega, fun fuel acc rest => ?_⟩
  rw [← Nat.add_assoc, List.append_assoc, hread, hread', List.reverse_append, List.append_assoc]

/-- A byte that is neither a control character nor a quote nor a backslash stands for itself. -/
theorem yields_byte {b : UInt8} (hcontrol : ¬ b < 0x20) (hquote : b ≠ 0x22)
    (hbackslash : b ≠ 0x5C) : Yields [b] [.byte b] := by
  refine ⟨1, Nat.le_refl 1, fun fuel acc rest => ?_⟩
  simp only [List.cons_append, List.nil_append, pieces, hcontrol, hquote, hbackslash, if_false,
    List.reverse_cons, List.reverse_nil]

/-- Bytes that are neither quotes, backslashes nor control characters yield themselves. -/
theorem yields_bytes {bs : List UInt8}
    (h : ∀ b ∈ bs, ¬ b < 0x20 ∧ b ≠ 0x22 ∧ b ≠ 0x5C) : Yields bs (bs.map .byte) := by
  induction bs with
  | nil => exact yields_nil
  | cons b bs ih =>
    obtain ⟨⟨hcontrol, hquote, hbackslash⟩, hbs⟩ := List.forall_mem_cons.1 h
    exact (yields_byte hcontrol hquote hbackslash).append (ih hbs)

/-- An escape of one letter stands for a byte. -/
theorem yields_letter {e b : UInt8} (hletter : ascii e ≠ 'u') (hb : escaped? (ascii e) = some b) :
    Yields [0x5C, e] [.byte b] := by
  refine ⟨1, Nat.le_succ 1, fun fuel acc rest => ?_⟩
  show pieces (fuel + 1) acc (0x5C :: e :: rest) = _
  rw [pieces, if_neg (by decide), if_neg (by decide), if_pos rfl]
  simp only [hletter, if_false, hb]
  rfl

/-- An escape of four digits stands for a unit. -/
theorem yields_unit {a b c d : UInt8} {n : Nat} (h : unit? [a, b, c, d] = some (n, [])) :
    Yields [0x5C, 0x75, a, b, c, d] [.unit n] := by
  have hrest (rest : List UInt8) : unit? (a :: b :: c :: d :: rest) = some (n, rest) := by
    simp only [unit?, Option.bind_eq_bind, Option.bind_eq_some_iff, Option.pure_def,
      Option.some.injEq, Prod.mk.injEq, and_true] at h ⊢
    exact h
  refine ⟨1, by simp, fun fuel acc rest => ?_⟩
  show pieces (fuel + 1) acc (0x5C :: 0x75 :: a :: b :: c :: d :: rest) = _
  rw [pieces, if_neg (by decide), if_neg (by decide), if_pos rfl]
  simp only [hrest]
  rw [if_pos (by decide)]
  rfl

/-! ## What is read of a string -/

/-- Whether bytes in a string are read as pieces that stand for some characters, whatever pieces
follow. -/
def Spells (bs : List UInt8) (cs : List Char) : Prop :=
  ∃ ps, Yields bs ps ∧ ∀ qs, bytes? (ps ++ qs) = (bytes? qs).map (encode cs ++ ·)

theorem spells_nil : Spells [] [] := ⟨[], yields_nil, fun qs => by simp [encode]⟩

/-- Spellings one after the other spell both. -/
theorem Spells.append {bs bs' : List UInt8} {cs cs' : List Char} (h : Spells bs cs)
    (h' : Spells bs' cs') : Spells (bs ++ bs') (cs ++ cs') := by
  obtain ⟨ps, hps, hbytes⟩ := h
  obtain ⟨ps', hps', hbytes'⟩ := h'
  refine ⟨ps ++ ps', hps.append hps', fun qs => ?_⟩
  rw [List.append_assoc, hbytes, hbytes', Option.map_map, encode_append]
  simp only [Function.comp_def, List.append_assoc]

/-- Pieces that are bytes are joined as they are. -/
theorem bytes?_map_byte (bs : List UInt8) (qs : List Piece) :
    bytes? (bs.map .byte ++ qs) = (bytes? qs).map (bs ++ ·) := by
  induction bs with
  | nil => simp
  | cons b bs ih =>
    rw [List.map_cons, List.cons_append, bytes?, ih, Option.map_map]
    rfl

/-- A unit below the surrogates is a character of its own. -/
theorem bytes?_unit {n : Nat} (h : n < 0xD800) (qs : List Piece) :
    bytes? (.unit n :: qs) = (bytes? qs).map (encodeChar (Char.ofNat n) ++ ·) := by
  have hhigh : ¬ (0xD800 ≤ n ∧ n < 0xDC00) := by omega
  have hlow : ¬ (0xDC00 ≤ n ∧ n < 0xE000) := by omega
  have hnone : ¬ (0xD800 ≤ n ∧ n < 0xE000) := by omega
  rcases qs with _ | ⟨_ | _, qs⟩
  · simp only [bytes?, hnone, if_false]
  · simp only [bytes?, hnone, if_false]
  · rw [bytes?, if_neg hhigh, if_neg hlow]

theorem spells_bytes {c : Char} {bs : List UInt8} (h : Yields bs ((encodeChar c).map .byte)) :
    Spells bs [c] := by
  refine ⟨_, h, fun qs => ?_⟩
  rw [bytes?_map_byte, encode, List.flatMap_singleton]

/-- What is written of a control character without a letter of its own. -/
theorem spells_control : ∀ n < 0x20, ∃ a b c d,
    encode ("\\u00" ++ String.ofList [Nat.digitChar (n / 16), Nat.digitChar (n % 16)]).toList =
      [0x5C, 0x75, a, b, c, d] ∧ unit? [a, b, c, d] = some (n, []) := by
  have hlist (n : Nat) :
      encode ("\\u00" ++ String.ofList [Nat.digitChar (n / 16), Nat.digitChar (n % 16)]).toList =
        [0x5C, 0x75, 0x30, 0x30] ++ encode [Nat.digitChar (n / 16), Nat.digitChar (n % 16)] := by
    simp only [String.toList_append, encode_append, String.toList_ofList]
    rfl
  have hdigits : ∀ n < 0x20, ∃ c d,
      encode [Nat.digitChar (n / 16), Nat.digitChar (n % 16)] = [c, d] ∧
        unit? [0x30, 0x30, c, d] = some (n, []) := by
    intro n hn
    refine ⟨(Nat.digitChar (n / 16)).toNat.toUInt8, (Nat.digitChar (n % 16)).toNat.toUInt8, ?_⟩
    revert n
    decide
  intro n hn
  obtain ⟨c, d, hcd, hunit⟩ := hdigits n hn
  exact ⟨0x30, 0x30, c, d, by rw [hlist, hcd]; rfl, hunit⟩

/-- What is written of a character in a string spells this character. -/
theorem spells_escape (c : Char) : Spells (encode (escape c).toList) [c] := by
  rw [escape]
  split_ifs with h1 h2 h3 h4 h5 h6 h7 h8
  -- seven characters have a letter behind the backslash
  · subst h1
    exact spells_bytes (yields_letter (e := 0x22) (by decide) (by decide))
  · subst h2
    exact spells_bytes (yields_letter (e := 0x5C) (by decide) (by decide))
  · subst h3
    exact spells_bytes (yields_letter (e := 0x6E) (by decide) (by decide))
  · subst h4
    exact spells_bytes (yields_letter (e := 0x72) (by decide) (by decide))
  · subst h5
    exact spells_bytes (yields_letter (e := 0x74) (by decide) (by decide))
  · subst h6
    exact spells_bytes (yields_letter (e := 0x62) (by decide) (by decide))
  · subst h7
    exact spells_bytes (yields_letter (e := 0x66) (by decide) (by decide))
  -- the other control characters are written as four digits
  · obtain ⟨a, b, d, e, hbytes, hunit⟩ := spells_control c.toNat h8
    rw [hbytes]
    refine ⟨_, yields_unit hunit, fun qs => ?_⟩
    rw [List.singleton_append, bytes?_unit (by omega), Char.ofNat_toNat, encode,
      List.flatMap_singleton]
  · rw [String.toList_ofList, encode, List.flatMap_singleton]
    refine spells_bytes (yields_bytes fun b hb => ?_)
    -- all others stand for themselves: none of their bytes is a quote, a backslash or below 32
    have hquote : c.toNat ≠ 0x22 := fun h => h1 (Char.toNat_inj.1 h)
    have hbackslash : c.toNat ≠ 0x5C := fun h => h2 (Char.toNat_inj.1 h)
    simp only [UInt8.lt_iff_toNat_lt, ne_eq, ← UInt8.toNat_inj, UInt8.reduceToNat]
    rcases Text.Utf8.of_mem_encodeChar hb with hb | hb <;> omega

/-- An escaped text spells the text. -/
theorem spells_escaped (cs : List Char) : Spells (encode (escaped cs)) cs := by
  induction cs with
  | nil => exact spells_nil
  | cons c cs ih =>
    rw [escaped, List.flatMap_cons, encode_append]
    exact (spells_escape c).append ih

/-- A string is read as it was written. -/
theorem string_quote (s : String) (rest : List UInt8) :
    string (encode (escaped s.toList) ++ 0x22 :: rest) = .ok (some s, rest) := by
  obtain ⟨ps, ⟨n, hn, hread⟩, hbytes⟩ := spells_escaped s.toList
  obtain ⟨fuel, hfuel⟩ : ∃ fuel,
      (encode (escaped s.toList) ++ 0x22 :: rest).length + 1 = (fuel + 1) + n := by
    refine ⟨(encode (escaped s.toList) ++ 0x22 :: rest).length - n, ?_⟩
    rw [List.length_append] at *
    omega
  have hbytes := hbytes []
  rw [List.append_nil, bytes?, Option.map_some, List.append_nil] at hbytes
  have hquote : pieces (fuel + 1) ps.reverse (0x22 :: rest) = .ok (ps, rest) := by
    simp only [pieces, if_true, List.reverse_reverse]
  rw [string, hfuel, hread, List.append_nil, hquote]
  show Except.ok ((bytes? ps).bind _, rest) = _
  rw [hbytes, Option.bind_some, Text.Utf8.decode?_encode, Option.map_some, String.ofList_toList]

/-! ## Values and members -/

/-- A text in quotes before a colon is read as a name. -/
theorem name_quote (s : String) (rest : List UInt8) :
    name (encode (quote s).toList ++ 0x3A :: rest) = .ok (some s, rest) := by
  rw [encode_quote, List.cons_append, List.append_assoc, name]
  show (string (encode (escaped s.toList) ++ 0x22 :: 0x3A :: rest) >>= _) = _
  rw [string_quote]
  rfl

/-- A text in quotes is read as a value. -/
theorem value_quote (fuel : Nat) (s : String) (rest : List UInt8) :
    value (fuel + 1) (encode (quote s).toList ++ rest) = .ok (.string s, rest) := by
  rw [encode_quote, List.cons_append, List.append_assoc]
  show (string (encode (escaped s.toList) ++ 0x22 :: rest) >>= _) = _
  rw [string_quote]
  rfl

/-- A member whose value is a string, as it is written. -/
def memberText (e : String × String) : List UInt8 :=
  encode (quote e.1).toList ++ 0x3A :: encode (quote e.2).toList

/-- A member begins with a quote. -/
theorem memberText_eq_cons (e : String × String) : ∃ bs, memberText e = 0x22 :: bs :=
  ⟨_, by rw [memberText, encode_quote, List.cons_append]⟩

/-- One member is read off the head of the members of an object. -/
theorem members_memberText (fuel : Nat) (acc : List (Option String × Json)) (e : String × String)
    (rest : List UInt8) :
    members (fuel + 2) acc (memberText e ++ rest) =
      match skip rest with
      | 0x2C :: rest => members (fuel + 1) ((some e.1, .string e.2) :: acc) (skip rest)
      | 0x7D :: rest => .ok (((some e.1, .string e.2) :: acc).reverse, rest)
      | [] => .error .unfinished
      | _ => .error (.malformed "expected a comma or a brace") := by
  rw [memberText, List.append_assoc, List.cons_append, members, name_quote]
  dsimp only [bind, Except.bind]
  rw [value_quote]
  rfl

/-- The members of an object of strings. -/
def stringMembers (es : List (String × String)) : List (String × Json) :=
  es.map fun e => (e.1, .string e.2)

/-- Members are written with commas between them. -/
theorem encode_renderMembers (e : String × String) (es : List (String × String)) :
    encode (renderMembers (stringMembers (e :: es))).toList =
      memberText e ++ es.flatMap fun e => 0x2C :: memberText e := by
  induction es generalizing e with
  | nil =>
    simp only [stringMembers, List.map_cons, List.map_nil, renderMembers, render,
      String.toList_append, encode_append, memberText, List.flatMap_nil, List.append_nil,
      List.append_assoc]
    rfl
  | cons e' es ih =>
    rw [List.flatMap_cons, List.cons_append, ← ih e']
    simp only [stringMembers, List.map_cons, renderMembers, render, String.toList_append,
      encode_append, memberText, List.append_assoc, List.cons_append]
    rfl

/-- The members of an object of strings are read as they were written. Each of them takes one of the
fuel. -/
theorem members_render (e : String × String) (es : List (String × String)) (fuel : Nat)
    (hfuel : es.length < fuel) (acc : List (Option String × Json)) (rest : List UInt8) :
    members (fuel + 1) acc
        (memberText e ++ (es.flatMap fun e => 0x2C :: memberText e) ++ 0x7D :: rest) =
      .ok (acc.reverse ++ (e :: es).map fun e => (some e.1, .string e.2), rest) := by
  -- on the members behind the first one, with any that were read before; each takes one of the
  -- fuel
  induction es generalizing e fuel acc with
  | nil =>
    obtain ⟨fuel, rfl⟩ : ∃ k, fuel = k + 1 := ⟨fuel - 1, by omega⟩
    rw [List.flatMap_nil, List.append_nil, members_memberText]
    show Except.ok (((some e.1, Json.string e.2) :: acc).reverse, rest) = _
    rw [List.reverse_cons]
    rfl
  | cons e' es ih =>
    rw [List.length_cons] at hfuel
    obtain ⟨fuel, rfl⟩ : ∃ k, fuel = k + 1 := ⟨fuel - 1, by omega⟩
    obtain ⟨bs, hbs⟩ := memberText_eq_cons e'
    -- behind a comma comes the quote of the next name, so there is nothing to skip
    have hskip (rest : List UInt8) : skip (memberText e' ++ rest) = memberText e' ++ rest := by
      rw [hbs]
      rfl
    rw [List.append_assoc, members_memberText, List.flatMap_cons, List.cons_append]
    show members (fuel + 1) _ (skip (memberText e' ++ _ ++ _)) = _
    rw [List.append_assoc, hskip, ← List.append_assoc, ih e' fuel (by omega), List.reverse_cons,
      List.append_assoc]
    rfl

/-- Members that were read make the object, as their names are different. -/
theorem objectOf_stringMembers (es : List (String × String)) :
    objectOf (es.map fun e => (some e.1, .string e.2)) = .object (stringMembers es) := by
  have hall : (es.map fun e => (some e.1, Json.string e.2)).mapM
      (fun m => m.1.map fun n => (n, m.2)) = some (stringMembers es) := by
    rw [List.mapM_map]
    induction es with
    | nil => rfl
    | cons e es ih =>
      rw [List.mapM_cons, ih]
      rfl
  rw [objectOf, hall]

/-- An object is written in braces. -/
theorem encode_render (e : String × String) (es : List (String × String)) :
    encode (Json.object (stringMembers (e :: es))).render.toList =
      0x7B :: (memberText e ++ (es.flatMap fun e => 0x2C :: memberText e) ++ [0x7D]) := by
  rw [render]
  simp only [String.toList_append, encode_append, encode_renderMembers]
  rfl

/-- There are at least as many bytes as members, so the fuel of the reader suffices. -/
theorem length_le_length_flatMap (es : List (String × String)) :
    es.length ≤ (es.flatMap fun e => 0x2C :: memberText e).length := by
  induction es with
  | nil => exact Nat.le_refl 0
  | cons e es ih =>
    rw [List.flatMap_cons, List.length_append, List.length_cons, List.length_cons]
    omega

/-- Behind a brace and a quote the members are read. -/
theorem value_brace (fuel : Nat) (bs : List UInt8) :
    value (fuel + 1) (0x7B :: 0x22 :: bs) =
      (members fuel [] (0x22 :: bs) >>= fun p => pure (objectOf p.1, p.2)) := rfl

/-- An object of strings is read as it was written. The length of the text is fuel enough. -/
theorem value_render (es : List (String × String)) :
    value ((encode (Json.object (stringMembers es)).render.toList).length + 1)
      (encode (Json.object (stringMembers es)).render.toList) =
        .ok (.object (stringMembers es), []) := by
  cases es with
  | nil => rfl
  | cons e es =>
    obtain ⟨bs, hbs⟩ := memberText_eq_cons e
    have hlength := length_le_length_flatMap es
    rw [encode_render]
    generalize htexts : (es.flatMap fun e => 0x2C :: memberText e) = texts at hlength
    have hmembers := members_render e es (bs.length + texts.length + 2) (by omega) [] []
    have hfuel : (0x7B :: (memberText e ++ texts ++ [0x7D])).length + 1 =
        (bs.length + texts.length + 2 + 1) + 1 := by
      simp only [hbs, List.length_cons, List.length_append, List.length_nil]
      omega
    rw [htexts, hbs] at hmembers
    rw [hfuel, hbs, List.cons_append, List.cons_append, value_brace, ← List.cons_append,
      ← List.cons_append, hmembers, List.reverse_nil, List.nil_append]
    exact congrArg (fun v => Except.ok (v, [])) (objectOf_stringMembers (e :: es))

end Reader

/-- Labels are read as they were written. -/
theorem readText_toJson (labels : Labels) : readText labels.toJson.render = .ok labels.toJson := by
  rw [readText, read]
  have hvalue := Reader.value_render labels.entries
  rw [Reader.stringMembers] at hvalue
  rw [Labels.toJson, hvalue]
  rfl

end Telemetry.Json
