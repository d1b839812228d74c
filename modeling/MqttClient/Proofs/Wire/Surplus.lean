import MqttClient.Proofs.Wire.Framing
import MqttClient.Proofs.Wire.Restored
import MqttClient.Proofs.Wire.RoundTrip

/-! A frame whose body goes on behind what was read. The readers of the parts take no more than they
need, so what is read first is the same; a payload, a list of filters or a list of reasons grows by
what follows. Only where a part was left out can the bytes behind it be that part, spelled out, and
then the packet is the same. -/

namespace MqttClient

open Decoder

namespace Decoder

variable {α β : Type}

/-- What is read does not depend on what stands behind it, which is left as it is. -/
def Steady (d : Decoder α) : Prop :=
  ∀ ⦃b a rest⦄, d b = .ok (a, rest) → ∀ x, d (b ++ x) = .ok (a, rest ++ x)

/-- What is read is never the same with more bytes behind it. -/
def Discerns (d : Decoder α) : Prop :=
  ∀ ⦃b a rest⦄, d b = .ok (a, rest) → ∀ x rest', d (b ++ x) = .ok (a, rest') → x = []

section Rules

variable {d : Decoder α} {f : α → Decoder β} {e : WireError}

theorem Steady.unique {b x rest rest' : Bytes} {a a' : α} (hd : Steady d) (h : d b = .ok (a, rest))
    (h' : d (b ++ x) = .ok (a', rest')) : a' = a ∧ rest' = rest ++ x := by
  rw [hd h x] at h'
  cases h'
  exact ⟨rfl, rfl⟩

@[grind ←] theorem Steady.bind (hd : Steady d) (hf : ∀ a, Steady (f a)) : Steady (d >>= f) := by
  intro b y rest h x
  obtain ⟨a, mid, ha, hy⟩ := bind_eq_ok.1 h
  exact bind_eq_ok.2 ⟨a, mid ++ x, hd ha x, hf a hy x⟩

@[grind ←] theorem Steady.pure (a : α) : Steady (Pure.pure a : Decoder α) := by
  rintro b _ _ ⟨⟩ x
  rfl

@[grind ←] theorem Steady.lift (r : Except WireError α) : Steady (monadLift r : Decoder α) := by
  intro b a rest h x
  obtain ⟨rfl, rfl⟩ := lift_eq_ok.1 h
  rfl

@[grind ←] theorem Steady.throw (e : WireError) : Steady (MonadExcept.throw e : Decoder α) := nofun

@[grind ←] theorem Steady.throw_bind (e : WireError) (f : α → Decoder β) :
    Steady (MonadExcept.throw e >>= f) := nofun

theorem Discerns.after (hf : ∀ a, Discerns (f a)) (hd : Steady d) : Discerns (d >>= f) := by
  intro b y rest h x rest' h'
  obtain ⟨a, mid, ha, hy⟩ := bind_eq_ok.1 h
  obtain ⟨a', mid', ha', hy'⟩ := bind_eq_ok.1 h'
  obtain ⟨rfl, rfl⟩ := hd.unique ha ha'
  exact hf _ hy x rest' hy'

theorem Discerns.kept (hd : Discerns d) (part : β → α)
    (kept : ∀ {a b y rest}, f a b = .ok (y, rest) → part y = a) : Discerns (d >>= f) := by
  intro b y rest h x rest' h'
  obtain ⟨a, mid, ha, hy⟩ := bind_eq_ok.1 h
  obtain ⟨a', mid', ha', hy'⟩ := bind_eq_ok.1 h'
  obtain rfl : a = a' := (kept hy).symm.trans (kept hy')
  exact hd ha x mid' ha'

theorem Discerns.unlessAtEnd (hd : Discerns d) :
    Discerns (do
      if ← atEnd then throw e
      d) := by
  intro b a rest h x rest' h'
  simp only [bind_eq_ok, unless_eq_ok, atEnd_eq_ok] at h h'
  obtain ⟨_, _, ⟨-, rfl⟩, -, h⟩ := h
  obtain ⟨_, _, ⟨-, rfl⟩, -, h'⟩ := h'
  exact hd h x rest' h'

end Rules

theorem byte_eq_ok {b rest : Bytes} {c : UInt8} : byte b = .ok (c, rest) ↔ b = c :: rest := by
  cases b with
  | nil => exact ⟨nofun, nofun⟩
  | cons c b =>
    change Except.ok (c, b) = _ ↔ _
    simp

@[grind ←] theorem steady_byte : Steady byte := by
  intro b c rest h x
  obtain rfl := byte_eq_ok.1 h
  rfl

@[grind ←] theorem steady_twoBytes : Steady twoBytes := by
  rintro (_ | ⟨c, _ | ⟨d, b⟩⟩) a rest h x
  · cases h
  · cases h
  · cases h
    rfl

theorem varInt_eq_ok {b rest : Bytes} {n : Nat} :
    varInt b = .ok (n, rest) ↔
      ∃ groups, groups.length ≤ 4 ∧ VarInt.Spells groups n ∧ b = groups ++ rest := by
  constructor
  · intro h
    unfold varInt at h
    split at h
    · next count m hd =>
      cases h
      obtain ⟨groups, rest, rfl, rfl, few, size⟩ := VarInt.spells_of_decodeGroups hd
      exact ⟨groups, few, size, by rw [List.drop_left]⟩
    · cases h
    · cases h
  · rintro ⟨groups, few, size, rfl⟩
    rw [varInt, VarInt.decode, size.decodeGroups_append few]
    simp only [List.drop_left]

theorem span_eq_ok {b x rest : Bytes} {n : Nat} :
    span n b = .ok (x, rest) ↔ x.length = n ∧ b = x ++ rest := by
  constructor
  · intro h
    have length := (length_of_span h).1
    unfold span at h
    split at h
    · cases h
    · cases h
      exact ⟨length, (List.take_append_drop n b).symm⟩
  · rintro ⟨rfl, rfl⟩
    rw [span, List.take_left, List.drop_left, if_neg (Nat.lt_irrefl _)]

@[grind ←] theorem steady_varInt : Steady varInt := by
  intro b n rest h x
  obtain ⟨groups, few, size, rfl⟩ := varInt_eq_ok.1 h
  exact varInt_eq_ok.2 ⟨groups, few, size, List.append_assoc groups rest x⟩

@[grind ←] theorem steady_span (n : Nat) : Steady (span n) := by
  intro b block rest h x
  obtain ⟨length, rfl⟩ := span_eq_ok.1 h
  exact span_eq_ok.2 ⟨length, List.append_assoc block rest x⟩

@[grind ←] theorem steady_binary : Steady binary := by
  unfold binary
  grind

@[grind ←] theorem steady_text : Steady text := by
  refine steady_binary.bind fun b => ?_
  split
  · grind
  · grind

@[grind ←] theorem steady_nonzeroId : Steady nonzeroId := by
  unfold nonzeroId
  grind

@[grind ←] theorem Properties.steady_decode : Steady Properties.decode := by
  unfold Properties.decode
  grind

theorem reasonOr_eq_ok {R : Type} [ReasonCode R] {refused : UInt8 → WireError} {c c' : UInt8}
    {r : R} (h : reasonOr refused c = .ok r) : reasonOr refused c' = .ok r ↔ c' = c :=
  ⟨fun h' => (code_of_reasonOr h').symm.trans (code_of_reasonOr h), fun same => same ▸ h⟩

theorem discerns_remaining : Discerns remaining := by
  rintro b _ _ ⟨⟩ x rest' h
  simpa using (Prod.mk.inj (Except.ok.inj h)).1

theorem ItemsOf.eq_nil_of_append {item : Decoder α} (steady : Steady item) {b x : Bytes}
    {xs : List α} (h : ItemsOf item b xs) (h' : ItemsOf item (b ++ x) xs) : x = [] := by
  induction h with
  | nil =>
    generalize same : [] ++ x = c at h'
    cases h'
    exact same
  | @cons b mid a later _ first _ ih =>
    generalize same : b ++ x = c at h'
    obtain _ | ⟨-, first', later'⟩ := h'
    subst same
    obtain ⟨-, rfl⟩ := steady.unique first first'
    exact ih later'

theorem discerns_items {item : Decoder α} (steady : Steady item) : Discerns (items item) := by
  intro b xs rest h x rest' h'
  exact (itemsOf_of_items h).2.eq_nil_of_append steady (itemsOf_of_items h').2

theorem discerns_reasonList {R : Type} [ReasonCode R] {refused : UInt8 → WireError} :
    Discerns (reasonList refused : Decoder (List R)) := by
  intro b l rest h x rest' h'
  have each := (length_of_reasonList h).1
  have each' := (length_of_reasonList h').1
  rw [List.length_append] at each'
  exact List.length_eq_zero_iff.1 (by omega)

end Decoder

theorem Filter.steady_decode : Steady Filter.decode := by
  refine steady_text.bind fun path => steady_byte.bind fun options => ?_
  split
  · grind
  · dsimp only
    split
    · grind
    · grind

theorem Publish.discerns_decode (flags : UInt8) : Discerns (Publish.decode flags) := by
  refine .after (fun qos => .after (fun topic => ?_) steady_text) (.lift _)
  simp only [bind_ite]
  refine .after (fun id => .after (fun properties => ?_) Properties.steady_decode) ?_
  · refine .kept discerns_remaining Publish.payload ?_
    rintro payload b p rest ⟨⟩
    rfl
  · split
    · grind
    · grind

theorem Subscribe.discerns_decode : Discerns Subscribe.decode := by
  refine .after (fun id => .after (fun properties => ?_) Properties.steady_decode) steady_nonzeroId
  refine .kept (discerns_items Filter.steady_decode) Subscribe.filters ?_
  intro filters b p rest h
  obtain ⟨-, rfl, -⟩ := by simpa only [unless_eq_ok, pure_eq_ok] using h
  rfl

theorem Unsubscribe.discerns_decode : Discerns Unsubscribe.decode := by
  refine .after (fun id => .after (fun properties => ?_) Properties.steady_decode) steady_nonzeroId
  refine .kept (discerns_items steady_text) Unsubscribe.filters ?_
  intro filters b p rest h
  obtain ⟨-, rfl, -⟩ := by simpa only [unless_eq_ok, pure_eq_ok] using h
  rfl

theorem SubAck.discerns_decode : Discerns SubAck.decode := by
  refine .after (fun id => .after (fun properties => ?_) Properties.steady_decode) steady_twoBytes
  refine .unlessAtEnd (.kept discerns_reasonList SubAck.returnCodes ?_)
  rintro codes b p rest ⟨⟩
  rfl

theorem UnsubAck.discerns_decode : Discerns UnsubAck.decode := by
  refine .after (fun id => .after (fun properties => ?_) Properties.steady_decode) steady_twoBytes
  refine .kept discerns_reasonList UnsubAck.reasons ?_
  rintro reasons b p rest ⟨⟩
  rfl

/-- The bytes in front of `rest` spell out the last `count` of the two parts that may be left out, a
code and a list of properties, each with the value that it has when it is left out. -/
inductive Completes : (count : Nat) → Bytes → (rest : Bytes) → Prop
  | nothing (x : Bytes) : Completes 0 x x
  | list {groups : Bytes} (few : groups.length ≤ 4) (size : VarInt.Spells groups 0)
    (rest : Bytes) : Completes 1 (groups ++ rest) rest
  | code : Completes 2 [0] []
  | both {x rest : Bytes} (h : Completes 1 x rest) : Completes 2 (0 :: x) rest

theorem Completes.ne_nil {x rest : Bytes} (h : Completes 1 x rest) : x ≠ [] := by
  cases h with
  | list few size rest =>
    exact List.append_ne_nil_of_left_ne_nil (List.ne_nil_of_length_pos size.bounds.1) rest

theorem Properties.decode_eq_nil {b rest : Bytes} :
    Properties.decode b = .ok ([], rest) ↔ Completes 1 b rest := by
  simp only [Properties.decode, Decoder.bind_eq_ok, lift_eq_ok, within_eq_ok, varInt_eq_ok,
    span_eq_ok]
  constructor
  · rintro ⟨_, mid, ⟨groups, few, size, rfl⟩, block, _, ⟨rfl, rfl⟩, ⟨last, hp⟩, rfl⟩
    obtain ⟨-, ⟨⟩⟩ := itemsOf_of_items hp
    exact .list few size _
  · rintro (_ | ⟨few, size, rest⟩)
    exact ⟨0, rest, ⟨_, few, size, rfl⟩, [], rest, ⟨rfl, rfl⟩, ⟨[], rfl⟩, rfl⟩

theorem completes_two {c : UInt8} {x rest : Bytes} :
    Completes 2 (c :: x) rest ↔
      c = 0 ∧ (x = [] ∧ x = rest ∨ x ≠ [] ∧ Properties.decode x = .ok ([], rest)) := by
  rw [Properties.decode_eq_nil]
  constructor
  · rintro (_ | _ | _ | list)
    · exact ⟨rfl, .inl ⟨rfl, rfl⟩⟩
    · exact ⟨rfl, .inr ⟨list.ne_nil, list⟩⟩
  · rintro ⟨rfl, ⟨rfl, rfl⟩ | ⟨-, list⟩⟩
    · exact .code
    · exact .both list

namespace Ack

variable {R : Type} [ReasonCode R] {b x rest rest' : Bytes} {a : Ack R}

theorem decode_append_iff_of_two (h : decode b.length b = .ok (a, rest)) (short : b.length = 2)
    (more : x ≠ []) :
    decode (b ++ x).length (b ++ x) = .ok (a, rest') ↔ Completes 2 x rest' := by
  simp only [decode, bind_ite, ite_eq_ok, Decoder.bind_eq_ok, lift_eq_ok, pure_eq_ok] at h
  obtain ⟨id, b₁, hid, code, b₂, hc, properties, b₃, hp, reason, _, ⟨hr, rfl⟩, rfl, rfl⟩ := h
  obtain rfl : b₁ = [] := by
    have := (nonzeroId_eq_ok hid).2
    exact List.length_eq_zero_iff.1 (by omega)
  obtain ⟨-, rfl, rfl⟩ := hc.resolve_right fun no => no.1 short
  obtain ⟨-, rfl, rfl⟩ := hp.resolve_right fun no => no.1 (by omega)
  obtain ⟨c, y, rfl⟩ := List.exists_cons_of_ne_nil more
  have hid' : nonzeroId (b ++ c :: y) = .ok (id, c :: y) := steady_nonzeroId hid (c :: y)
  have size : (b ++ c :: y).length = 3 + y.length := by
    rw [List.length_append, List.length_cons, short]
    omega
  have two : 3 + y.length ≠ 2 := by omega
  have three : 3 + y.length ≤ 3 ↔ y = [] :=
    ⟨fun few => List.length_eq_zero_iff.1 (by omega), fun none => Nat.le_of_eq (none ▸ rfl)⟩
  have coded : reasonOr .invalidReason c = .ok reason ↔ c = 0 := reasonOr_eq_ok hr
  simp only [size, decode, bind_ite, Decoder.bind_eq_ok, hid', ite_eq_ok, byte_eq_ok, lift_eq_ok,
    pure_eq_ok, Except.ok.injEq, Prod.mk.injEq, two, three, completes_two]
  simp [coded, and_comm]

theorem decode_append_iff_of_three (h : decode b.length b = .ok (a, rest)) (short : b.length = 3)
    (more : x ≠ []) :
    decode (b ++ x).length (b ++ x) = .ok (a, rest') ↔ Completes 1 x rest' := by
  simp only [decode, bind_ite, ite_eq_ok, Decoder.bind_eq_ok, lift_eq_ok, pure_eq_ok] at h
  obtain ⟨id, b₁, hid, code, b₂, hc, properties, b₃, hp, reason, _, ⟨hr, rfl⟩, rfl, rfl⟩ := h
  obtain ⟨-, hc⟩ := hc.resolve_left fun no => by omega
  obtain ⟨-, rfl, rfl⟩ := hp.resolve_right fun no => no.1 (by omega)
  obtain rfl := byte_eq_ok.1 hc
  obtain rfl : b₂ = [] := by
    have := (nonzeroId_eq_ok hid).2
    rw [List.length_cons] at this
    exact List.length_eq_zero_iff.1 (by omega)
  have hid' : nonzeroId (b ++ x) = .ok (id, code :: x) := steady_nonzeroId hid x
  have size : (b ++ x).length ≠ 2 ∧ ¬ (b ++ x).length ≤ 3 := by
    have := List.length_pos_of_ne_nil more
    rw [List.length_append, short]
    omega
  rw [← Properties.decode_eq_nil]
  simp only [decode, bind_ite, Decoder.bind_eq_ok, hid', ite_eq_ok, byte_eq_ok, lift_eq_ok,
    pure_eq_ok, Except.ok.injEq, Prod.mk.injEq, size]
  simp [hr]

theorem decode_append_iff (h : decode b.length b = .ok (a, rest)) (left : 4 - b.length ≠ 0)
    (more : x ≠ []) :
    decode (b ++ x).length (b ++ x) = .ok (a, rest') ↔ Completes (4 - b.length) x rest' := by
  have two : 2 ≤ b.length := by
    obtain ⟨id, mid, hid, -⟩ := Decoder.bind_eq_ok.1 h
    exact Nat.le.intro (nonzeroId_eq_ok hid).2
  obtain short | short : b.length = 2 ∨ b.length = 3 := by omega
  · rw [decode_append_iff_of_two h short more, short]
  · rw [decode_append_iff_of_three h short more, short]

end Ack

theorem ConnAck.decode_append_iff {b x rest rest' : Bytes} {p : ConnAck}
    (h : decode b = .ok (p, rest)) (left : 3 - b.length ≠ 0) (more : x ≠ []) :
    decode (b ++ x) = .ok (p, rest') ↔ Completes (3 - b.length) x rest' := by
  simp only [decode, bind_ite, ite_eq_ok, Decoder.bind_eq_ok, lift_eq_ok, throw_eq_ok, pure_eq_ok,
    false_and, exists_false, and_false, false_or, byte_eq_ok] at h ⊢
  obtain ⟨flags, b₁, rfl, reserved, c, b₂, rfl, code, _, ⟨hr, rfl⟩, last, b₃, hl, properties, _, hp,
    rfl, rfl⟩ := h
  obtain rfl : b₂ = [] := by
    rw [List.length_cons, List.length_cons] at left
    exact List.length_eq_zero_iff.1 (by omega)
  obtain ⟨rfl, rfl⟩ := atEnd_eq_ok.1 hl
  obtain ⟨-, rfl, rfl⟩ := hp.resolve_right fun no => no.1 rfl
  change _ ↔ Completes 1 x rest'
  rw [← Properties.decode_eq_nil]
  simp [not_not.1 reserved, hr, atEnd_eq_ok, more]

theorem Disconnect.decode_append_iff {b x rest rest' : Bytes} {p : Disconnect}
    (h : decode b = .ok (p, rest)) (left : 2 - b.length ≠ 0) (more : x ≠ []) :
    decode (b ++ x) = .ok (p, rest') ↔ Completes (2 - b.length) x rest' := by
  simp only [decode, bind_ite, ite_eq_ok, Decoder.bind_eq_ok, lift_eq_ok, pure_eq_ok,
    byte_eq_ok] at h ⊢
  obtain ⟨c, b₁, rfl, reason, _, ⟨hr, rfl⟩, last, b₂, hl, properties, _, hp, rfl, rfl⟩ := h
  obtain rfl : b₁ = [] := by
    rw [List.length_cons] at left
    exact List.length_eq_zero_iff.1 (by omega)
  obtain ⟨rfl, rfl⟩ := atEnd_eq_ok.1 hl
  obtain ⟨-, rfl, rfl⟩ := hp.resolve_right fun no => no.1 rfl
  change _ ↔ Completes 1 x rest'
  rw [← Properties.decode_eq_nil]
  simp [hr, atEnd_eq_ok, more]

theorem Disconnect.decode_eq_default {x rest : Bytes} :
    decode x = .ok ({}, rest) ↔ Completes 2 x rest := by
  cases x with
  | nil => exact ⟨nofun, nofun⟩
  | cons c x =>
    have coded : reasonOr .invalidReason c = .ok DisconnectReason.normalDisconnection ↔ c = 0 :=
      reasonOr_eq_ok rfl
    simp only [decode, bind_ite, ite_eq_ok, Decoder.bind_eq_ok, lift_eq_ok, pure_eq_ok, byte_eq_ok,
      atEnd_eq_ok, completes_two]
    simp [coded]

namespace Packet

/-- How many of the two parts that may be left out at the end were left out of a body of `bodySize`
bytes. A packet that ends in a payload or a list, or has no body, leaves out none. -/
def leftOut? : Packet → (bodySize : Nat) → Option Nat
  | connect _, _ => some 0
  | connAck _, bodySize => some (3 - bodySize)
  | pubAck _, bodySize | pubRec _, bodySize => some (4 - bodySize)
  | pubRel _, bodySize | pubComp _, bodySize => some (4 - bodySize)
  | disconnect _, bodySize => some (2 - bodySize)
  | publish _, _ | subscribe _, _ | subAck _, _ | unsubscribe _, _ | unsubAck _, _ => none
  | pingReq, _ | pingResp, _ => none

/-- What a body of `bodySize` bytes that was read as `p` is read as with `x` behind it. -/
structure Tight (p : Packet) (bodySize : Nat) (x : Bytes) (longer : Except WireError Packet) :
    Prop where
  whole : p.leftOut? bodySize = none → longer ≠ .ok p
  short : ∀ {k}, p.leftOut? bodySize = some k → k ≠ 0 →
    (longer = .ok p ↔ ∃ rest, Completes k x rest)

section Bodies

variable {p : Packet} {body x : Bytes} {α : Type} {d d' : Decoder α} {g : α → Packet}

theorem Tight.of_discerns (hd : Discerns d) (injective : Function.Injective g)
    (whole : ∀ a, (g a).leftOut? body.length = none) (more : x ≠ [])
    (h : within body (g <$> d) = .ok p) :
    p.Tight body.length x (within (body ++ x) (g <$> d)) := by
  obtain ⟨rest, h⟩ := within_eq_ok.1 h
  obtain ⟨a, ha, rfl⟩ := map_eq_ok.1 h
  refine ⟨fun _ h' => ?_, fun left => ?_⟩
  · obtain ⟨rest', h'⟩ := within_eq_ok.1 h'
    obtain ⟨a', ha', same⟩ := map_eq_ok.1 h'
    obtain rfl := injective same
    exact more (hd ha x rest' ha')
  · rw [whole a] at left
    cases left

theorem Tight.of_iff {n : Nat} (injective : Function.Injective g)
    (short : ∀ a, (g a).leftOut? body.length = some n)
    (completes : ∀ {a rest rest'}, d body = .ok (a, rest) → n ≠ 0 →
      (d' (body ++ x) = .ok (a, rest') ↔ Completes n x rest'))
    (h : within body (g <$> d) = .ok p) :
    p.Tight body.length x (within (body ++ x) (g <$> d')) := by
  obtain ⟨rest, h⟩ := within_eq_ok.1 h
  obtain ⟨a, ha, rfl⟩ := map_eq_ok.1 h
  refine ⟨fun whole => ?_, fun left more => ?_⟩
  · rw [short a] at whole
    cases whole
  · obtain rfl := Option.some.inj ((short a).symm.trans left)
    simp only [within_eq_ok, map_eq_ok, injective.eq_iff, exists_eq_right, completes ha more]

theorem tight_decodeBody {type : PacketType} {flags : UInt8} (more : x ≠ [])
    (h : decodeBody type flags body = .ok p) :
    p.Tight body.length x (decodeBody type flags (body ++ x)) := by
  cases type with
  | connect => exact .of_iff (fun _ _ => connect.inj) (fun _ => rfl) (fun _ no => absurd rfl no) h
  | connAck =>
    exact .of_iff (fun _ _ => connAck.inj) (fun _ => rfl)
      (fun ha left => ConnAck.decode_append_iff ha left more) h
  | publish =>
    exact .of_discerns (Publish.discerns_decode flags) (fun _ _ => publish.inj) (fun _ => rfl)
      more h
  | pubAck | pubRec | pubRel | pubComp =>
    exact .of_iff (fun _ _ same => by cases same; rfl) (fun _ => rfl)
      (fun ha left => Ack.decode_append_iff ha left more) h
  | subscribe =>
    exact .of_discerns Subscribe.discerns_decode (fun _ _ => subscribe.inj) (fun _ => rfl) more h
  | subAck =>
    exact .of_discerns SubAck.discerns_decode (fun _ _ => subAck.inj) (fun _ => rfl) more h
  | unsubscribe =>
    exact .of_discerns Unsubscribe.discerns_decode (fun _ _ => unsubscribe.inj) (fun _ => rfl)
      more h
  | unsubAck =>
    exact .of_discerns UnsubAck.discerns_decode (fun _ _ => unsubAck.inj) (fun _ => rfl) more h
  | pingReq | pingResp => cases h
  | disconnect =>
    exact .of_iff (fun _ _ => disconnect.inj) (fun _ => rfl)
      (fun ha left => Disconnect.decode_append_iff ha left more) h

theorem tight_withoutBody {type : PacketType} {flags : UInt8} (h : withoutBody type = .ok p) :
    p.Tight 0 x (decodeBody type flags x) := by
  cases type with
  | pingReq | pingResp =>
    cases h
    exact ⟨fun _ => nofun, nofun⟩
  | disconnect =>
    cases h
    refine ⟨nofun, fun left _ => ?_⟩
    cases left
    simp only [decodeBody, within_eq_ok, map_eq_ok, disconnect.injEq, exists_eq_right,
      Disconnect.decode_eq_default]
  | _ => cases h

theorem tight_ofFrame {header longer : FixedHeader} (first : longer.firstByte = header.firstByte)
    (size : header.bodySize = body.length) (size' : longer.bodySize = (body ++ x).length)
    (more : x ≠ []) (h : ofFrame header body = .ok p) :
    p.Tight body.length x (ofFrame longer (body ++ x)) := by
  simp only [ofFrame, bind_eq_ok] at h
  obtain ⟨type, ht, ⟨⟩, hf, h⟩ := h
  have named : longer.packetType = .ok type := by
    rw [← ht, FixedHeader.packetType, first]
    rfl
  have flags : longer.flags = header.flags := by rw [FixedHeader.flags, first, FixedHeader.flags]
  have flagged : longer.checkFlags type = .ok () := by
    rw [← hf, FixedHeader.checkFlags, flags]
    rfl
  have goes : longer.bodySize ≠ 0 := by
    rw [size', List.length_append]
    exact Nat.ne_of_gt (Nat.add_pos_right _ (List.length_pos_of_ne_nil more))
  rw [ofFrame_of_packetType named flagged, if_neg goes, flags]
  split at h
  · next empty =>
    obtain rfl : body = [] := List.length_eq_zero_iff.1 (size ▸ empty)
    exact tight_withoutBody h
  · exact tight_decodeBody more h

end Bodies

/-- A frame of the given first byte and body. Its size is spelled in four bytes at most, not
necessarily the fewest. -/
inductive FrameOf (firstByte : UInt8) (body : Bytes) : Bytes → Prop
  | mk {groups : Bytes} (few : groups.length ≤ 4) (size : VarInt.Spells groups body.length) :
    FrameOf firstByte body (firstByte :: (groups ++ body))

variable {p : Packet} {f f' body x : Bytes} {limit limit' n : Nat} {firstByte : UInt8}

theorem decode_frameOf (hf : FrameOf firstByte body f) (small : body.length ≤ limit) :
    ∃ header : FixedHeader, header.firstByte = firstByte ∧ header.bodySize = body.length ∧
      decode f limit = (ofFrame header body).map (·, f.length) ∧
      read f limit = (ofFrame header body, []) := by
  obtain @⟨groups, few, size⟩ := hf
  let header : FixedHeader := ⟨firstByte, groups.length, body.length⟩
  have length : header.frameLength = (firstByte :: (groups ++ body)).length := by
    simp only [header, FixedHeader.frameLength, List.length_cons, List.length_append]
    omega
  have hc : FixedHeader.check (firstByte :: (groups ++ body)) limit = .ok header :=
    FixedHeader.check_eq_ok.2
      ⟨FixedHeader.decode_of_spells firstByte few size body, small, Nat.le_of_eq length⟩
  have cut : ((firstByte :: (groups ++ body)).take header.frameLength).drop
      (1 + header.lengthBytes) = body := by
    rw [length, List.take_length, Nat.add_comm, List.drop_succ_cons, List.drop_left]
  refine ⟨header, rfl, rfl, ?_, ?_⟩
  · rw [decode, hc]
    change (ofFrame header (List.drop _ _) >>= fun p => pure (p, header.frameLength)) = _
    rw [cut, length]
    rfl
  · rw [read_of_check hc, cut, length, List.drop_length]

theorem ofFrame_of_decode (hf : FrameOf firstByte body f) (h : decode f limit = .ok (p, n)) :
    ∃ header : FixedHeader, header.firstByte = firstByte ∧ header.bodySize = body.length ∧
      ofFrame header body = .ok p := by
  have small : body.length ≤ limit := by
    obtain ⟨header, hc, -⟩ := bind_eq_ok.1 h
    obtain ⟨hd, small, -⟩ := FixedHeader.check_eq_ok.1 hc
    obtain ⟨few, size⟩ := hf
    rw [FixedHeader.decode_of_spells firstByte few size] at hd
    cases hd
    exact small
  obtain ⟨header, first, size, decodes, -⟩ := decode_frameOf hf small
  refine ⟨header, first, size, ?_⟩
  rw [decodes] at h
  cases ho : ofFrame header body with
  | error e =>
    rw [ho] at h
    cases h
  | ok q =>
    rw [ho] at h
    cases h
    rfl

/-- With more bytes behind its body a frame is read as another packet, or it is taken off the stream
and refused. The exception are the packets that may leave out their last parts. If `x` spells out
just what a frame left out, the packet is the same; nothing is said here of bytes that stand behind
all the parts. -/
theorem decode_longer (h : decode f limit = .ok (p, n)) (hf : FrameOf firstByte body f)
    (hf' : FrameOf firstByte (body ++ x) f') (more : x ≠ []) (small : (body ++ x).length ≤ limit') :
    ((¬ ∃ k rest, p.leftOut? body.length = some k ∧ Completes k x rest) →
        (∃ q, q ≠ p ∧ decode f' limit' = .ok (q, f'.length)) ∨
          ∃ e, ¬ e.asksForMore ∧ decode f' limit' = .error e ∧ read f' limit' = (.error e, [])) ∧
      ((∃ k, p.leftOut? body.length = some k ∧ Completes k x []) →
        decode f' limit' = .ok (p, f'.length)) := by
  obtain ⟨header, first, bodySize, ho⟩ := ofFrame_of_decode hf h
  obtain ⟨longer, first', bodySize', decodes, reads⟩ := decode_frameOf hf' small
  have tight := tight_ofFrame (first'.trans first.symm) bodySize bodySize' more ho
  rw [decodes, reads]
  constructor
  · intro surplus
    have other : ofFrame longer (body ++ x) ≠ .ok p := by
      intro same
      cases left : p.leftOut? body.length with
      | none => exact tight.whole left same
      | some k =>
        by_cases none : k = 0
        · subst none
          exact surplus ⟨0, x, left, .nothing x⟩
        · obtain ⟨rest, completes⟩ := (tight.short left none).1 same
          exact surplus ⟨k, rest, left, completes⟩
    cases ho' : ofFrame longer (body ++ x) with
    | error e =>
      have final := not_awaits_ofFrame longer (body ++ x)
      rw [ho', Awaits.error_iff] at final
      exact .inr ⟨e, final, rfl, rfl⟩
    | ok q => exact .inl ⟨q, fun same => other (same ▸ ho'), rfl⟩
  · rintro ⟨k, left, completes⟩
    have part : k ≠ 0 := by
      rintro rfl
      cases completes
      exact more rfl
    rw [(tight.short left part).2 ⟨[], completes⟩]
    rfl

theorem decode_longer_pubAck :
    let p := pubAck { packetId := 7, reason := .success }
    decode [64, 2, 0, 7] 16 = .ok (p, 4) ∧ decode [64, 3, 0, 7, 0] 16 = .ok (p, 5) ∧
      ((∃ q, q ≠ p ∧ decode [64, 3, 0, 7, 16] 16 = .ok (q, 5)) ∨
        ∃ e, ¬ e.asksForMore ∧ decode [64, 3, 0, 7, 16] 16 = .error e ∧
          read [64, 3, 0, 7, 16] 16 = (.error e, [])) := by
  intro p
  have short : decode [64, 2, 0, 7] 16 = .ok (p, 4) := by
    unfold p
    rfl
  have frame : FrameOf 64 [0, 7] [64, 2, 0, 7] :=
    @FrameOf.mk 64 _ [2] (by decide) (.last (by decide))
  have zero : FrameOf 64 ([0, 7] ++ [0]) [64, 3, 0, 7, 0] :=
    @FrameOf.mk 64 _ [3] (by decide) (.last (by decide))
  have other : FrameOf 64 ([0, 7] ++ [16]) [64, 3, 0, 7, 16] :=
    @FrameOf.mk 64 _ [3] (by decide) (.last (by decide))
  refine ⟨short, ?_, ?_⟩
  · exact (decode_longer short frame zero (by decide) (by decide)).2 ⟨2, rfl, .code⟩
  · refine (decode_longer short frame other (by decide) (by decide)).1 ?_
    rintro ⟨_, rest, ⟨⟩, completes⟩
    exact absurd (completes_two.1 completes).1 (by decide)

/-- The two forms of one acknowledgement. -/
theorem not_distinct_of_longer :
    let p := pubAck { packetId := 7, reason := .success }
    decode [64, 2, 0, 7] 18446744073709551615 = .ok (p, 4) ∧
      FrameOf 64 [0, 7] [64, 2, 0, 7] ∧ FrameOf 64 ([0, 7] ++ [0]) [64, 3, 0, 7, 0] ∧
      ¬ ((∃ q, q ≠ p ∧ decode [64, 3, 0, 7, 0] 18446744073709551615 = .ok (q, 5)) ∨
        ∃ e, decode [64, 3, 0, 7, 0] 18446744073709551615 = .error e) := by
  intro p
  have long : decode [64, 3, 0, 7, 0] 18446744073709551615 = .ok (p, 5) := by
    unfold p
    rfl
  refine ⟨?_, @FrameOf.mk 64 _ [2] (by decide) (.last (by decide)),
    @FrameOf.mk 64 _ [3] (by decide) (.last (by decide)), ?_⟩
  · unfold p
    rfl
  · rw [long]
    rintro (⟨q, other, same⟩ | ⟨e, no⟩)
    · cases same
      exact other rfl
    · cases no

end Packet

end MqttClient
