import MqttClient.Proofs.Wire.Properties

/-! What a reader gives can be written. The readers take more than the writers make, such as numbers
with bytes to spare, so that the written form may be shorter than what was read; but whatever was
read keeps to the limits of its writer. The rules take a reader that succeeded apart into the steps
that succeeded, and each part of a packet is restored from its own step. -/

namespace MqttClient

open Decoder

namespace VarInt

theorem bounds_of_decodeGroups {k : Nat} {b : Bytes} {count n : Nat}
    (h : decodeGroups k b = .ok (count, n)) :
    0 < count ∧ count ≤ k ∧ count ≤ b.length ∧ n < capacity count := by
  obtain ⟨groups, rest, rfl, rfl, few, spells⟩ := spells_of_decodeGroups h
  exact ⟨spells.bounds.1, few, by simp, spells.bounds.2⟩

theorem size_le_of_lt_capacity {count n : Nat} (some : 0 < count) (few : count ≤ 4)
    (h : n < capacity count) : size n ≤ count ∧ n ≤ maxValue := by
  obtain rfl | rfl | rfl | rfl : count = 1 ∨ count = 2 ∨ count = 3 ∨ count = 4 := by omega
  all_goals
    simp only [capacity] at h
    unfold size maxValue
    repeat' split
    all_goals omega

theorem size_mono {m n : Nat} (h : m ≤ n) : size m ≤ size n := by
  unfold size
  repeat' split
  all_goals omega

end VarInt

namespace Decoder

variable {α β : Type} {b rest : Bytes} {a : α} {y : β}

theorem bind_eq_ok {d : Decoder α} {f : α → Decoder β} :
    (d >>= f) b = .ok (y, rest) ↔ ∃ a mid, d b = .ok (a, mid) ∧ f a mid = .ok (y, rest) := by
  rw [bind_apply, MqttClient.bind_eq_ok]
  exact Prod.exists

theorem pure_eq_ok {x : α} : (pure x : Decoder α) b = .ok (a, rest) ↔ x = a ∧ b = rest := by
  change Except.ok (x, b) = _ ↔ _
  simp

theorem lift_eq_ok {x : Except WireError α} :
    (monadLift x : Decoder α) b = .ok (a, rest) ↔ x = .ok a ∧ b = rest := by
  cases x with
  | error e => exact ⟨nofun, nofun⟩
  | ok x =>
    change Except.ok (x, b) = _ ↔ _
    simp

theorem throw_eq_ok {e : WireError} : (throw e : Decoder α) b = .ok (a, rest) ↔ False :=
  ⟨nofun, nofun⟩

theorem map_eq_ok {d : Decoder α} {g : α → β} :
    (g <$> d) b = .ok (y, rest) ↔ ∃ a, d b = .ok (a, rest) ∧ g a = y := by
  change (d >>= fun a => pure (g a)) b = _ ↔ _
  simp only [bind_eq_ok, pure_eq_ok]
  constructor
  · rintro ⟨a, _, hd, rfl, rfl⟩
    exact ⟨a, hd, rfl⟩
  · rintro ⟨a, hd, rfl⟩
    exact ⟨a, rest, hd, rfl, rfl⟩

theorem ite_eq_ok {p : Prop} [Decidable p] {d e : Decoder α} :
    (if p then d else e) b = .ok (a, rest) ↔
      p ∧ d b = .ok (a, rest) ∨ ¬ p ∧ e b = .ok (a, rest) := by
  split <;> simp [*]

theorem unless_eq_ok {p : Prop} [Decidable p] {e : WireError} {f : α → Decoder β} {d : Decoder β} :
    (if p then throw e >>= f else d) b = .ok (y, rest) ↔ ¬ p ∧ d b = .ok (y, rest) := by
  split
  · next hp => exact ⟨nofun, fun h => absurd hp h.1⟩
  · next hp => exact ⟨fun h => ⟨hp, h⟩, fun h => h.2⟩

theorem atEnd_eq_ok {last : Bool} : atEnd b = .ok (last, rest) ↔ b.isEmpty = last ∧ b = rest := by
  change Except.ok (b.isEmpty, b) = _ ↔ _
  simp

theorem within_eq_ok {block : Bytes} {d : Decoder α} :
    within block d = .ok a ↔ ∃ rest, d block = .ok (a, rest) := by
  change (d block).map (·.1) = _ ↔ _
  cases d block with
  | error e => exact ⟨nofun, nofun⟩
  | ok r => simp [Except.map, Prod.ext_iff]

/-- The items are read one behind the other, to the end of the bytes. -/
inductive ItemsOf (item : Decoder α) : Bytes → List α → Prop
  | nil : ItemsOf item [] []
  | cons {b mid : Bytes} {a : α} {later : List α} (some : b ≠ []) (first : item b = .ok (a, mid))
    (rest : ItemsOf item mid later) : ItemsOf item b (a :: later)

theorem itemsOf_of_itemsLoop {item : Decoder α} {fuel : Nat} {acc xs : List α}
    (h : itemsLoop item fuel acc b = .ok (xs, rest)) :
    rest = [] ∧ ∃ later, xs = acc.reverse ++ later ∧ ItemsOf item b later := by
  fun_induction itemsLoop item fuel acc b with
  | case1 _ acc =>
    cases h
    exact ⟨rfl, [], (List.append_nil _).symm, .nil⟩
  | case2 => cases h
  | case3 fuel acc b some a mid first ih =>
    obtain ⟨rfl, later, rfl, listed⟩ := ih h
    exact ⟨rfl, a :: later, by simp, .cons some first listed⟩
  | case4 => cases h

theorem itemsOf_of_items {item : Decoder α} {xs : List α} (h : items item b = .ok (xs, rest)) :
    rest = [] ∧ ItemsOf item b xs := by
  obtain ⟨rfl, later, rfl, listed⟩ := itemsOf_of_itemsLoop h
  exact ⟨rfl, listed⟩

end Decoder

/-- A part that was read off `b`, with `rest` left behind it, has a written form, which takes no
more bytes than were read; and its texts can be read. -/
structure Restored {γ : Type} (written : Except WireError γ) (size : Nat) (texts : List String)
    (b rest : Bytes) : Prop where
  writes : ∃ c, written = .ok c
  le : size + rest.length ≤ b.length
  plain : Plain texts

namespace Decoder

variable {b rest : Bytes}

theorem length_of_byte {x : UInt8} (h : byte b = .ok (x, rest)) : 1 + rest.length = b.length := by
  match b with
  | [] => cases h
  | _ :: _ =>
    cases h
    exact Nat.add_comm _ _

theorem length_of_twoBytes {w : UInt16} (h : twoBytes b = .ok (w, rest)) :
    2 + rest.length = b.length := by
  match b with
  | [] | [_] => cases h
  | _ :: _ :: _ =>
    cases h
    exact Nat.add_comm _ _

theorem length_of_fourBytes {w : UInt32} (h : fourBytes b = .ok (w, rest)) :
    4 + rest.length = b.length := by
  match b with
  | [] | [_] | [_, _] | [_, _, _] => cases h
  | _ :: _ :: _ :: _ :: _ =>
    cases h
    exact Nat.add_comm _ _

theorem length_of_span {n : Nat} {x : Bytes} (h : span n b = .ok (x, rest)) :
    x.length = n ∧ n + rest.length = b.length := by
  unfold span at h
  split at h
  · cases h
  · next enough =>
    cases h
    simp only [List.length_take, List.length_drop] at enough ⊢
    omega

theorem nonzeroId_eq_ok {id : UInt16} (h : nonzeroId b = .ok (id, rest)) :
    id ≠ 0 ∧ 2 + rest.length = b.length := by
  simp only [nonzeroId, bind_eq_ok, unless_eq_ok, pure_eq_ok] at h
  obtain ⟨_, _, hw, ne, rfl, rfl⟩ := h
  exact ⟨ne, length_of_twoBytes hw⟩

theorem restored_varInt {n : Nat} (h : varInt b = .ok (n, rest)) :
    Restored (VarInt.encode n) (VarInt.size n) [] b rest := by
  unfold varInt at h
  split at h
  · next count m hd =>
    cases h
    obtain ⟨some, few, there, below⟩ := VarInt.bounds_of_decodeGroups hd
    obtain ⟨short, fits⟩ := VarInt.size_le_of_lt_capacity some few below
    refine ⟨⟨_, VarInt.encode_eq_ok.2 ⟨fits, rfl⟩⟩, ?_, plain_nil⟩
    rw [List.length_drop]
    omega
  · cases h
  · cases h

theorem restored_binary {x : Bytes} (h : binary b = .ok (x, rest)) :
    Restored (encodeBinary x) (2 + x.length) [] b rest := by
  simp only [binary, bind_eq_ok] at h
  obtain ⟨length, mid, hw, hx⟩ := h
  have header := length_of_twoBytes hw
  obtain ⟨same, block⟩ := length_of_span hx
  have fits : x.length ≤ 65535 := same ▸ Nat.le_of_lt_succ length.toNat_lt
  exact ⟨⟨_, encodeBinary_eq_ok.2 ⟨fits, rfl⟩⟩, by omega, plain_nil⟩

theorem restored_text {s : String} (h : text b = .ok (s, rest)) :
    Restored (encodeText s) (2 + s.utf8ByteSize) [s] b rest := by
  simp only [text, bind_eq_ok] at h
  obtain ⟨x, mid, hx, h⟩ := h
  cases hs : Bytes.toText? x with
  | none =>
    rw [hs] at h
    cases h
  | some s' =>
    rw [hs] at h
    simp only [ite_eq_ok, throw_eq_ok, pure_eq_ok, and_false, false_or] at h
    obtain ⟨plain, rfl, rfl⟩ := h
    obtain ⟨writes, le, -⟩ := restored_binary hx
    rw [← Bytes.ofText_of_toText? hs] at writes le
    exact ⟨writes, le, by simpa using plain⟩

theorem restored_items {α : Type} {item : Decoder α} {encode : α → Except WireError Bytes}
    (size : α → Nat) (texts : α → List String)
    (restored : ∀ {b a rest}, item b = .ok (a, rest) →
      Restored (encode a) (size a) (texts a) b rest)
    {xs : List α} (h : items item b = .ok (xs, rest)) :
    Restored (xs.mapM encode) (xs.foldr (size · + ·) 0) (xs.flatMap texts) b rest := by
  obtain ⟨rfl, listed⟩ := itemsOf_of_items h
  clear h
  induction listed with
  | nil => exact ⟨⟨_, rfl⟩, Nat.le_refl _, plain_nil⟩
  | cons _ first _ ih =>
    obtain ⟨⟨part, written⟩, le, plain⟩ := restored first
    obtain ⟨⟨parts, all⟩, le', plain'⟩ := ih
    refine ⟨⟨part :: parts, ?_⟩, ?_, ?_⟩
    · rw [mapM_eq_ok] at all ⊢
      exact .cons written all
    · rw [List.length_nil] at le'
      rw [List.foldr_cons, List.length_nil]
      omega
    · rw [List.flatMap_cons, plain_append]
      exact ⟨plain, plain'⟩

theorem length_of_reasonList {R : Type} [ReasonCode R] {refused : UInt8 → WireError} {l : List R}
    (h : reasonList refused b = .ok (l, rest)) : l.length = b.length ∧ rest = [] := by
  change (b.mapM (reasonOr refused)).map (·, []) = _ at h
  cases hm : b.mapM (reasonOr refused : UInt8 → Except WireError R) with
  | error e =>
    rw [hm] at h
    cases h
  | ok l' =>
    rw [hm] at h
    cases h
    exact ⟨(mapM_eq_ok.1 hm).length_eq.symm, rfl⟩

theorem code_of_reasonOr {R : Type} [ReasonCode R] {refused : UInt8 → WireError} {c : UInt8}
    {r : R} (h : reasonOr refused c = .ok r) : ReasonCode.code r = c := by
  unfold reasonOr at h
  split at h
  · next found =>
    cases h
    exact ReasonCode.code_of_ofCode? found
  · cases h

end Decoder

namespace Property

variable {b rest : Bytes} {p : Property}

theorem restored_decodeValue {id : PropertyId} (h : decodeValue id b = .ok (p, rest)) :
    Restored p.encodeValue p.valueSize p.texts b rest := by
  cases id with
  | byte id =>
    simp only [decodeValue, Decoder.bind_eq_ok, pure_eq_ok] at h
    obtain ⟨value, _, hv, rfl, rfl⟩ := h
    exact ⟨⟨_, rfl⟩, Nat.le_of_eq (length_of_byte hv), plain_nil⟩
  | twoBytes id =>
    simp only [decodeValue, Decoder.bind_eq_ok, pure_eq_ok] at h
    obtain ⟨value, _, hv, rfl, rfl⟩ := h
    exact ⟨⟨_, rfl⟩, Nat.le_of_eq (length_of_twoBytes hv), plain_nil⟩
  | fourBytes id =>
    simp only [decodeValue, Decoder.bind_eq_ok, pure_eq_ok] at h
    obtain ⟨value, _, hv, rfl, rfl⟩ := h
    exact ⟨⟨_, rfl⟩, Nat.le_of_eq (length_of_fourBytes hv), plain_nil⟩
  | text id =>
    simp only [decodeValue, Decoder.bind_eq_ok, pure_eq_ok] at h
    obtain ⟨value, _, hv, rfl, rfl⟩ := h
    exact restored_text hv
  | binary id =>
    simp only [decodeValue, Decoder.bind_eq_ok, pure_eq_ok] at h
    obtain ⟨value, _, hv, rfl, rfl⟩ := h
    exact restored_binary hv
  | subscriptionIdentifier =>
    simp only [decodeValue, Decoder.bind_eq_ok, pure_eq_ok] at h
    obtain ⟨value, _, hv, rfl, rfl⟩ := h
    exact restored_varInt hv
  | userProperty =>
    simp only [decodeValue, Decoder.bind_eq_ok, pure_eq_ok] at h
    obtain ⟨key, mid, hk, value, _, hv, rfl, rfl⟩ := h
    obtain ⟨⟨k, written⟩, le, plain⟩ := restored_text hk
    obtain ⟨⟨v, written'⟩, le', plain'⟩ := restored_text hv
    refine ⟨⟨k ++ v, ?_⟩, ?_, plain_append.2 ⟨plain, plain'⟩⟩
    · rw [encodeValue, written, written']
      rfl
    · rw [valueSize]
      omega

theorem restored_decode (h : decode b = .ok (p, rest)) :
    Restored p.encode p.size p.texts b rest := by
  simp only [decode, Decoder.bind_eq_ok] at h
  obtain ⟨code, mid, hc, h⟩ := h
  cases hid : PropertyId.ofCode? code with
  | none =>
    rw [hid] at h
    cases h
  | some id =>
    rw [hid] at h
    obtain ⟨⟨value, written⟩, le, plain⟩ := restored_decodeValue h
    refine ⟨⟨_, encode_eq_ok.2 ⟨value, written, rfl⟩⟩, ?_, plain⟩
    have first := length_of_byte hc
    rw [size]
    omega

end Property

namespace Properties

variable {b rest : Bytes} {ps : Properties}

theorem restored_decode (h : decode b = .ok (ps, rest)) :
    Restored (encode ps) ps.size ps.texts b rest := by
  simp only [decode, Decoder.bind_eq_ok, lift_eq_ok, within_eq_ok] at h
  obtain ⟨n, mid, hn, block, _, hb, ⟨end_, hp⟩, rfl⟩ := h
  obtain ⟨⟨_, written⟩, le, -⟩ := restored_varInt hn
  obtain ⟨length, cut⟩ := length_of_span hb
  obtain ⟨⟨entries, all⟩, small, plain⟩ :=
    restored_items Property.size Property.texts Property.restored_decode hp
  have small : ps.blockSize ≤ n := by
    rw [← length]
    exact Nat.le_of_add_right_le small
  have fits := (VarInt.encode_eq_ok.1 written).1
  refine ⟨⟨_, encode_eq_ok.2 ⟨_, entries, VarInt.encode_eq_ok.2 ⟨?_, rfl⟩, mapM_eq_ok.1 all, rfl⟩⟩,
    ?_, plain⟩
  · exact Nat.le_trans small fits
  · have := VarInt.size_mono small
    rw [size]
    omega

theorem restored_ifAny {last : Bool} {mid : Bytes} (hl : atEnd b = .ok (last, mid))
    (h : last = true ∧ [] = ps ∧ mid = rest ∨ ¬ last = true ∧ decode mid = .ok (ps, rest)) :
    (∃ c, encode ps = .ok c) ∧ (ps ≠ [] → ps.size + rest.length ≤ b.length) ∧
      rest.length ≤ b.length ∧ Plain ps.texts := by
  obtain ⟨-, rfl⟩ := atEnd_eq_ok.1 hl
  obtain ⟨-, rfl, rfl⟩ | ⟨-, h⟩ := h
  · exact ⟨⟨_, rfl⟩, fun some => absurd rfl some, Nat.le_refl _, plain_nil⟩
  · obtain ⟨writes, le, plain⟩ := restored_decode h
    exact ⟨writes, fun _ => le, Nat.le_of_add_left_le le, plain⟩

end Properties

end MqttClient
