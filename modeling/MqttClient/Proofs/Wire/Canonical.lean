import MqttClient.Proofs.Wire.Restored
import MqttClient.Proofs.Wire.Stream
import MqttClient.Proofs.Wire.RoundTrip

/-! Every packet that is read has a written form that is read as the same packet. The form is no
longer than what was read, whatever defaults were spelled out in it and whatever stood behind the
last field, except that a connection accepted without properties gets the length of its empty
list. -/

namespace MqttClient

open Decoder

namespace LastWill

theorem restored_decode {flags : UInt8} {w : Option LastWill} {b rest : Bytes}
    (h : decode flags b = .ok (w, rest)) :
    Restored (w.elim (.ok []) LastWill.encode) (w.elim 0 LastWill.size)
      (w.elim [] LastWill.texts) b rest := by
  simp only [decode, ite_eq_ok, Decoder.bind_eq_ok, lift_eq_ok, throw_eq_ok, pure_eq_ok, false_and,
    exists_false, and_false, false_or] at h
  obtain ⟨-, -, rfl, rfl⟩ |
    ⟨-, properties, b₁, hp, topic, b₂, ht, message, b₃, hm, qos, _, ⟨-, rfl⟩, rfl, rfl⟩ := h
  · exact ⟨⟨_, rfl⟩, by simp, plain_nil⟩
  · obtain ⟨⟨ps, wp⟩, lp, pp⟩ := Properties.restored_decode hp
    obtain ⟨⟨t, wt⟩, lt, pt⟩ := restored_text ht
    obtain ⟨⟨m, wm⟩, lm, -⟩ := restored_binary hm
    refine ⟨⟨ps ++ t ++ m, ?_⟩, ?_, plain_append.2 ⟨pp, pt⟩⟩
    · simp only [Option.elim_some, encode, wp, wt, wm]
      rfl
    · simp only [Option.elim_some, size]
      omega

end LastWill

namespace Connect

variable {b rest : Bytes} {p : Connect}

theorem restored_field {α : Type} {absent : Prop} [Decidable absent] {d : Decoder α} {o : Option α}
    {encode : α → Except WireError Bytes} (size : α → Nat) (texts : α → List String)
    (restored : ∀ {b a rest}, d b = .ok (a, rest) → Restored (encode a) (size a) (texts a) b rest)
    (h : (if absent then pure none else some <$> d) b = .ok (o, rest)) :
    Restored (o.elim (.ok []) encode) (o.elim 0 size) (o.elim [] texts) b rest := by
  simp only [ite_eq_ok, pure_eq_ok, map_eq_ok] at h
  obtain ⟨-, rfl, rfl⟩ | ⟨-, a, ha, rfl⟩ := h
  · exact ⟨⟨_, rfl⟩, by simp, plain_nil⟩
  · exact restored ha

theorem restored_decode (h : decode b = .ok (p, rest)) :
    Restored p.encodeBody p.bodySize p.texts b rest := by
  simp only [decode, bind_ite, unless_eq_ok, Decoder.bind_eq_ok, pure_eq_ok] at h
  obtain ⟨name, b₁, hn, named, level, b₂, hl, -, flags, b₃, hf, -, keepAlive, b₄, hk, properties,
    b₅, hp, clientId, b₆, hi, will, b₇, hw, username, b₈, hu, password, _, hpw, rfl, rfl⟩ := h
  obtain rfl : name = protocolName := by simpa using named
  obtain ⟨⟨n, wn⟩, ln, -⟩ := restored_text hn
  have := length_of_byte hl
  have := length_of_byte hf
  have := length_of_twoBytes hk
  obtain ⟨⟨ps, wp⟩, lp, pp⟩ := Properties.restored_decode hp
  obtain ⟨⟨i, wi⟩, li, pi⟩ := restored_text hi
  obtain ⟨⟨w, ww⟩, lw, pw⟩ := LastWill.restored_decode hw
  obtain ⟨⟨u, wu⟩, lu, pu⟩ :=
    restored_field (2 + ·.utf8ByteSize) ([·]) restored_text hu
  obtain ⟨⟨s, ws⟩, ls, -⟩ :=
    restored_field (2 + ·.length) (fun _ => []) restored_binary hpw
  refine ⟨?_, ?_, ?_⟩
  · simp only [encodeBody, wn, wp, wi, ww, wu, ws]
    exact ⟨_, rfl⟩
  · simp only [bodySize]
    omega
  · rw [texts, plain_append, plain_cons, plain_append]
    exact ⟨pp, by simpa using pi, pw, pu⟩

end Connect

namespace ConnAck

theorem restored_decode {b rest : Bytes} {p : ConnAck} (h : decode b = .ok (p, rest)) :
    (∃ c, p.encodeBody = .ok c) ∧ (p.properties ≠ [] → p.bodySize ≤ b.length) ∧
      Plain p.texts := by
  simp only [decode, bind_ite, ite_eq_ok, Decoder.bind_eq_ok, lift_eq_ok, throw_eq_ok, pure_eq_ok,
    false_and, exists_false, and_false, false_or] at h
  obtain ⟨flags, b₁, hf, -, code, b₂, hc, reason, _, ⟨-, rfl⟩, last, b₃, hl, properties, _, hp,
    rfl, rfl⟩ := h
  have := length_of_byte hf
  have := length_of_byte hc
  obtain ⟨⟨ps, wp⟩, lp, -, pp⟩ := Properties.restored_ifAny hl hp
  refine ⟨?_, fun some => ?_, pp⟩
  · simp only [encodeBody, wp]
    exact ⟨_, rfl⟩
  · have := lp some
    simp only [bodySize]
    omega

end ConnAck

namespace Publish

theorem restored_decode {flags : UInt8} {b rest : Bytes} {p : Publish}
    (h : decode flags b = .ok (p, rest)) :
    p.checkPacketId = .ok () ∧ Restored p.encodeBody p.bodySize p.texts b rest := by
  simp only [decode, bind_ite, ite_eq_ok, Decoder.bind_eq_ok, lift_eq_ok, pure_eq_ok] at h
  obtain ⟨qos, _, ⟨-, rfl⟩, topic, b₁, ht, id, b₂, hid, properties, b₃, hp, payload, _, hr, rfl,
    rfl⟩ := h
  obtain ⟨⟨t, wt⟩, lt, pt⟩ := restored_text ht
  obtain ⟨⟨ps, wp⟩, lp, pp⟩ := Properties.restored_decode hp
  cases hr
  have fits : (qos = .atMostOnce ↔ id = 0) ∧
      (if qos = .atMostOnce then 0 else 2) + b₂.length = b₁.length := by
    obtain ⟨none, rfl, rfl⟩ | ⟨some, hid⟩ := hid
    · simp [none]
    · obtain ⟨ne, length⟩ := nonzeroId_eq_ok hid
      simp [some, ne, length]
  refine ⟨?_, ?_, ?_, ?_⟩
  · simp only [checkPacketId]
    cases qos <;> simp_all
  · simp only [encodeBody, wt, wp]
    exact ⟨_, rfl⟩
  · have := fits.2
    simp only [bodySize, List.length_nil]
    omega
  · exact plain_append.2 ⟨pt, pp⟩

end Publish

namespace Ack

variable {R : Type} [ReasonCode R]

theorem restored_decode {b rest : Bytes} {a : Ack R} (h : decode b.length b = .ok (a, rest)) :
    a.packetId ≠ 0 ∧ Restored a.encodeBody a.bodySize a.texts b rest := by
  simp only [decode, bind_ite, ite_eq_ok, Decoder.bind_eq_ok, lift_eq_ok, pure_eq_ok] at h
  obtain ⟨id, b₁, hid, code, b₂, hc, properties, b₃, hp, reason, _, ⟨hr, rfl⟩, rfl, rfl⟩ := h
  obtain ⟨ne, length⟩ := nonzeroId_eq_ok hid
  have coded := code_of_reasonOr hr
  have first : (b.length = 2 ∧ code = 0 ∧ b₂.length = 0) ∨ 3 + b₂.length = b.length := by
    obtain ⟨two, rfl, rfl⟩ | ⟨-, hc⟩ := hc
    · exact .inl ⟨two, rfl, by omega⟩
    · have := length_of_byte hc
      exact .inr (by omega)
  have last : (properties = [] ∧ b₃ = b₂) ∨
      (3 < b.length ∧ Restored (Properties.encode properties) (Properties.size properties)
        (Properties.texts properties) b₂ b₃) := by
    obtain ⟨-, rfl, rfl⟩ | ⟨long, hp⟩ := hp
    · exact .inl ⟨rfl, rfl⟩
    · exact .inr ⟨Nat.lt_of_not_le long, Properties.restored_decode hp⟩
  refine ⟨ne, ?_⟩
  obtain ⟨rfl, rfl⟩ | ⟨long, ⟨ps, wp⟩, lp, pp⟩ := last
  · refine ⟨⟨_, rfl⟩, ?_, plain_nil⟩
    obtain ⟨two, rfl, none⟩ | three := first
    · simp only [bodySize, coded, List.isEmpty_nil, if_true]
      omega
    · simp only [bodySize, List.isEmpty_nil, if_true]
      split <;> omega
  · have three : 3 + b₂.length = b.length := first.resolve_left fun two => by omega
    refine ⟨?_, ?_, pp⟩
    · simp only [encodeBody, wp]
      split <;> exact ⟨_, rfl⟩
    · have := Properties.size_pos properties
      simp only [bodySize]
      repeat' split
      all_goals omega

end Ack

namespace Filter

theorem restored_decode {b rest : Bytes} {f : Filter} (h : decode b = .ok (f, rest)) :
    Restored f.encode f.size [f.path] b rest := by
  simp only [decode, Decoder.bind_eq_ok, unless_eq_ok] at h
  obtain ⟨path, b₁, hp, options, b₂, ho, -, h⟩ := h
  obtain ⟨⟨p, wp⟩, lp, pp⟩ := restored_text hp
  have := length_of_byte ho
  cases hr : RetainForwardRule.ofNumber? (options >>> 4 &&& 3) with
  | none =>
    rw [hr] at h
    cases h
  | some rule =>
    rw [hr] at h
    simp only [Decoder.bind_eq_ok, lift_eq_ok, pure_eq_ok] at h
    obtain ⟨qos, _, ⟨-, rfl⟩, rfl, rfl⟩ := h
    refine ⟨?_, ?_, pp⟩
    · simp only [encode, wp]
      exact ⟨_, rfl⟩
    · simp only [size]
      omega

end Filter

namespace Subscribe

theorem restored_decode {b rest : Bytes} {p : Subscribe} (h : decode b = .ok (p, rest)) :
    p.packetId ≠ 0 ∧ p.filters ≠ [] ∧ Restored p.encodeBody p.bodySize p.texts b rest := by
  simp only [decode, Decoder.bind_eq_ok, unless_eq_ok, pure_eq_ok] at h
  obtain ⟨id, b₁, hid, properties, b₂, hp, filters, b₃, hf, some, rfl, rfl⟩ := h
  obtain ⟨ne, length⟩ := nonzeroId_eq_ok hid
  obtain ⟨⟨ps, wp⟩, lp, pp⟩ := Properties.restored_decode hp
  obtain ⟨⟨fs, wf⟩, lf, pf⟩ := restored_items Filter.size ([·.path]) Filter.restored_decode hf
  refine ⟨ne, by simpa using some, ?_, ?_, plain_append.2 ⟨pp, pf⟩⟩
  · simp only [encodeBody, wp, wf]
    exact ⟨_, rfl⟩
  · simp only [bodySize]
    omega

end Subscribe

namespace SubAck

theorem restored_decode {b rest : Bytes} {p : SubAck} (h : decode b = .ok (p, rest)) :
    p.returnCodes ≠ [] ∧ Restored p.encodeBody p.bodySize p.texts b rest := by
  simp only [decode, Decoder.bind_eq_ok, unless_eq_ok, pure_eq_ok] at h
  obtain ⟨id, b₁, hid, properties, b₂, hp, last, b₃, hl, more, codes, b₄, hc, rfl, rfl⟩ := h
  have := length_of_twoBytes hid
  obtain ⟨⟨ps, wp⟩, lp, pp⟩ := Properties.restored_decode hp
  obtain ⟨rfl, rfl⟩ := atEnd_eq_ok.1 hl
  obtain ⟨each, rfl⟩ := length_of_reasonList hc
  refine ⟨?_, ?_, ?_, pp⟩
  · rintro rfl
    exact more (by simpa using each.symm)
  · simp only [encodeBody, wp]
    exact ⟨_, rfl⟩
  · simp only [bodySize, List.length_nil]
    omega

end SubAck

namespace Unsubscribe

theorem restored_decode {b rest : Bytes} {p : Unsubscribe} (h : decode b = .ok (p, rest)) :
    p.packetId ≠ 0 ∧ p.filters ≠ [] ∧ Restored p.encodeBody p.bodySize p.texts b rest := by
  simp only [decode, Decoder.bind_eq_ok, unless_eq_ok, pure_eq_ok] at h
  obtain ⟨id, b₁, hid, properties, b₂, hp, filters, b₃, hf, some, rfl, rfl⟩ := h
  obtain ⟨ne, length⟩ := nonzeroId_eq_ok hid
  obtain ⟨⟨ps, wp⟩, lp, pp⟩ := Properties.restored_decode hp
  obtain ⟨⟨fs, wf⟩, lf, pf⟩ :=
    restored_items (2 + ·.utf8ByteSize) ([·]) restored_text hf
  refine ⟨ne, by simpa using some, ?_, ?_, plain_append.2 ⟨pp, pf⟩⟩
  · simp only [encodeBody, wp, wf]
    exact ⟨_, rfl⟩
  · simp only [bodySize]
    omega

end Unsubscribe

namespace UnsubAck

theorem restored_decode {b rest : Bytes} {p : UnsubAck} (h : decode b = .ok (p, rest)) :
    Restored p.encodeBody p.bodySize p.texts b rest := by
  simp only [decode, Decoder.bind_eq_ok, pure_eq_ok] at h
  obtain ⟨id, b₁, hid, properties, b₂, hp, reasons, b₃, hr, rfl, rfl⟩ := h
  have := length_of_twoBytes hid
  obtain ⟨⟨ps, wp⟩, lp, pp⟩ := Properties.restored_decode hp
  obtain ⟨each, rfl⟩ := length_of_reasonList hr
  refine ⟨?_, ?_, pp⟩
  · simp only [encodeBody, wp]
    exact ⟨_, rfl⟩
  · simp only [bodySize, List.length_nil]
    omega

end UnsubAck

namespace Disconnect

theorem restored_decode {b rest : Bytes} {p : Disconnect} (h : decode b = .ok (p, rest)) :
    Restored p.encodeBody p.bodySize p.texts b rest := by
  simp only [decode, bind_ite, ite_eq_ok, Decoder.bind_eq_ok, lift_eq_ok, pure_eq_ok] at h
  obtain ⟨code, b₁, hc, reason, _, ⟨-, rfl⟩, last, b₂, hl, properties, _, hp, rfl, rfl⟩ := h
  have := length_of_byte hc
  obtain ⟨⟨ps, wp⟩, lp, left, pp⟩ := Properties.restored_ifAny hl hp
  refine ⟨?_, ?_, pp⟩
  · simp only [encodeBody, wp]
    split <;> exact ⟨_, rfl⟩
  · simp only [bodySize]
    split
    · split <;> omega
    · next some =>
      have := lp (by simpa using some)
      omega

end Disconnect

namespace Packet

/-- A packet that a body of `n` bytes can have been read as. -/
structure Rewritable (p : Packet) (n : Nat) : Prop where
  check : p.check = .ok ()
  writes : ∃ c, p.encodeBody = .ok c
  le : (∀ a, p = connAck a → a.properties ≠ []) → p.bodySize ≤ n
  plain : Plain p.texts
  codes : ∀ q, p = subAck q → q.returnCodes ≠ []

variable {p : Packet} {b body rest : Bytes} {limit n : Nat}

theorem Rewritable.of_restored
    (h : Restored p.encodeBody p.bodySize p.texts body rest) (check : p.check = .ok ())
    (codes : ∀ q, p = subAck q → q.returnCodes ≠ []) : p.Rewritable body.length :=
  ⟨check, h.writes, fun _ => Nat.le_of_add_right_le h.le, h.plain, codes⟩

theorem rewritable_of_decodeBody {type : PacketType} {flags : UInt8}
    (h : decodeBody type flags body = .ok p) : p.Rewritable body.length := by
  cases type with
  | connect =>
    obtain ⟨rest, h⟩ := within_eq_ok.1 h
    obtain ⟨q, hq, rfl⟩ := map_eq_ok.1 h
    exact .of_restored (Connect.restored_decode hq) rfl nofun
  | connAck =>
    obtain ⟨rest, h⟩ := within_eq_ok.1 h
    obtain ⟨q, hq, rfl⟩ := map_eq_ok.1 h
    obtain ⟨writes, le, plain⟩ := ConnAck.restored_decode hq
    exact ⟨rfl, writes, fun some => le (some q rfl), plain, nofun⟩
  | publish =>
    obtain ⟨rest, h⟩ := within_eq_ok.1 h
    obtain ⟨q, hq, rfl⟩ := map_eq_ok.1 h
    obtain ⟨id, restored⟩ := Publish.restored_decode hq
    exact .of_restored restored id nofun
  | pubAck | pubRec | pubRel | pubComp =>
    obtain ⟨rest, h⟩ := within_eq_ok.1 h
    obtain ⟨q, hq, rfl⟩ := map_eq_ok.1 h
    obtain ⟨ne, restored⟩ := Ack.restored_decode hq
    exact .of_restored restored (nonzeroId_eq_ok.2 ne) nofun
  | subscribe =>
    obtain ⟨rest, h⟩ := within_eq_ok.1 h
    obtain ⟨q, hq, rfl⟩ := map_eq_ok.1 h
    obtain ⟨ne, some, restored⟩ := Subscribe.restored_decode hq
    exact .of_restored restored (check_of_listed some ne) nofun
  | subAck =>
    obtain ⟨rest, h⟩ := within_eq_ok.1 h
    obtain ⟨q, hq, rfl⟩ := map_eq_ok.1 h
    obtain ⟨some, restored⟩ := SubAck.restored_decode hq
    exact .of_restored restored rfl fun _ same => by
      cases same
      exact some
  | unsubscribe =>
    obtain ⟨rest, h⟩ := within_eq_ok.1 h
    obtain ⟨q, hq, rfl⟩ := map_eq_ok.1 h
    obtain ⟨ne, some, restored⟩ := Unsubscribe.restored_decode hq
    exact .of_restored restored (check_of_listed some ne) nofun
  | unsubAck =>
    obtain ⟨rest, h⟩ := within_eq_ok.1 h
    obtain ⟨q, hq, rfl⟩ := map_eq_ok.1 h
    exact .of_restored (UnsubAck.restored_decode hq) rfl nofun
  | pingReq | pingResp => cases h
  | disconnect =>
    obtain ⟨rest, h⟩ := within_eq_ok.1 h
    obtain ⟨q, hq, rfl⟩ := map_eq_ok.1 h
    exact .of_restored (Disconnect.restored_decode hq) rfl nofun

theorem rewritable_of_withoutBody {type : PacketType} (h : withoutBody type = .ok p) :
    p.Rewritable 0 := by
  cases type with
  | pingReq | pingResp | disconnect =>
    cases h
    exact ⟨rfl, ⟨_, rfl⟩, fun _ => Nat.le_refl 0, plain_nil, nofun⟩
  | _ => cases h

theorem rewritable_of_ofFrame {header : FixedHeader} (length : body.length = header.bodySize)
    (h : ofFrame header body = .ok p) : p.Rewritable header.bodySize := by
  simp only [ofFrame, bind_eq_ok] at h
  obtain ⟨type, -, -, -, h⟩ := h
  split at h
  · next none =>
    rw [none]
    exact rewritable_of_withoutBody h
  · exact length ▸ rewritable_of_decodeBody h

theorem bounds_of_header {header : FixedHeader} (h : FixedHeader.decode b = .ok header) :
    VarInt.size header.bodySize ≤ header.lengthBytes ∧ header.bodySize ≤ VarInt.maxValue := by
  obtain ⟨groups, rest, -, length, few, spelled⟩ := FixedHeader.spells_of_decode h
  obtain ⟨some, below⟩ := spelled.bounds
  rw [← length] at few ⊢
  exact VarInt.size_le_of_lt_capacity some few below

theorem bodySize_connAck {a : ConnAck} (none : a.properties = []) : (connAck a).bodySize = 3 := by
  rw [bodySize, ConnAck.bodySize, none]
  rfl

theorem Rewritable.bodySize_le (h : p.Rewritable n) (fits : n ≤ VarInt.maxValue) :
    p.bodySize ≤ VarInt.maxValue := by
  by_cases some : ∀ a, p = connAck a → a.properties ≠ []
  · exact Nat.le_trans (h.le some) fits
  · simp only [not_forall, not_not] at some
    obtain ⟨a, rfl, none⟩ := some
    rw [bodySize_connAck none]
    decide

/-- What was read is written in a form that is read as the same packet, and that is no longer. -/
theorem canonical_of_decode (h : decode b limit = .ok (p, n)) :
    ∃ b', p.encode = .ok b' ∧
      (∀ limit', VarInt.maxValue ≤ limit' → decode b' limit' = .ok (p, b'.length)) ∧
      ((∀ a, p = connAck a → a.properties ≠ []) → b'.length ≤ n) ∧
      ∀ a, p = connAck a → a.properties = [] → b'.length = 5 := by
  simp only [decode, bind_eq_ok] at h
  obtain ⟨header, hc, q, hf, e⟩ := h
  cases e
  obtain ⟨hd, -, whole⟩ := FixedHeader.check_eq_ok.1 hc
  obtain ⟨short, fits⟩ := bounds_of_header hd
  have length : ((b.take header.frameLength).drop (1 + header.lengthBytes)).length =
      header.bodySize := by
    rw [List.length_drop, List.length_take, Nat.min_eq_left whole, FixedHeader.frameLength]
    omega
  have read := rewritable_of_ofFrame length hf
  obtain ⟨body, written⟩ := read.writes
  have small := read.bodySize_le fits
  have encoded := encode_eq_ok.2 ⟨read.check, small, body, written, rfl⟩
  have size := length_encode encoded
  obtain ⟨r, yields, reads⟩ := read_encode encoded
  have same : r = .ok p := (yields.accepts read.plain).trans (outcome_eq_ok read.codes)
  refine ⟨_, encoded, fun limit' hl => ?_, fun some => ?_, fun a ha none => ?_⟩
  · have back := (reads [] limit' (Nat.le_trans small hl)).1
    rw [List.append_nil, same] at back
    exact back
  · have le := read.le some
    have mono := VarInt.size_mono le
    rw [size]
    simp only [FixedHeader.frameLength, Packet.header]
    omega
  · rw [size, ha]
    simp only [FixedHeader.frameLength, Packet.header, bodySize_connAck none]
    rfl

theorem canonical_short_and_long :
    let short := pubAck { packetId := 7, reason := .success }
    let long := connAck { sessionPresent := true, code := .success }
    decode [64, 132, 0, 0, 7, 0, 0] 16 = .ok (short, 7) ∧ short.encode = .ok [64, 2, 0, 7] ∧
      decode [64, 2, 0, 7] 18446744073709551615 = .ok (short, 4) ∧
      ([64, 2, 0, 7] : Bytes).length ≤ 7 ∧
      decode [32, 2, 1, 0] 16 = .ok (long, 4) ∧ long.encode = .ok [32, 3, 1, 0, 0] ∧
      decode [32, 3, 1, 0, 0] 18446744073709551615 = .ok (long, 5) ∧
      ([32, 3, 1, 0, 0] : Bytes).length = 5 := by
  intro short long
  have readShort : decode [64, 132, 0, 0, 7, 0, 0] 16 = .ok (short, 7) := by
    unfold short
    rfl
  have readLong : decode [32, 2, 1, 0] 16 = .ok (long, 4) := by
    unfold long
    rfl
  have writtenShort : short.encode = .ok [64, 2, 0, 7] := by
    unfold short
    rfl
  have writtenLong : long.encode = .ok [32, 3, 1, 0, 0] := by
    unfold long
    rfl
  obtain ⟨b, written, back, le, -⟩ := canonical_of_decode readShort
  obtain ⟨b', written', back', -, five⟩ := canonical_of_decode readLong
  obtain rfl := Except.ok.inj (written.symm.trans writtenShort)
  obtain rfl := Except.ok.inj (written'.symm.trans writtenLong)
  exact ⟨readShort, written, back _ (by decide), le nofun, readLong, written', back' _ (by decide),
    five _ rfl rfl⟩

end Packet

end MqttClient
