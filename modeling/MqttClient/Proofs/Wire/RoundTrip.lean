import MqttClient.Frame
import MqttClient.Proofs.Wire.Bodies

/-! Reading undoes writing, for every packet whose texts are plain and which is no acknowledgement
of a subscription without codes. These two kinds of packet are written all the same, and what was
written is refused. -/

namespace MqttClient

open Decoder

namespace Packet

/-- Every text that a packet carries, those of its properties and of a will among them. -/
def texts : Packet → List String
  | connect p => p.texts
  | connAck p => p.texts
  | publish p => p.texts
  | pubAck p | pubRec p => p.texts
  | pubRel p | pubComp p => p.texts
  | subscribe p => p.texts
  | subAck p => p.texts
  | unsubscribe p => p.texts
  | unsubAck p => p.texts
  | pingReq | pingResp => []
  | disconnect p => p.texts

/-- What reading makes of the written form of a packet, if its texts are plain. -/
def outcome : Packet → Except WireError Packet
  | subAck p => if p.returnCodes = [] then .error .malformedPacket else .ok (subAck p)
  | p => .ok p

theorem length_encodeBody {p : Packet} {b : Bytes} (h : p.encodeBody = .ok b) :
    b.length = p.bodySize := by
  cases p with
  | connect p => exact p.length_encodeBody h
  | connAck p => exact p.length_encodeBody h
  | publish p => exact p.length_encodeBody h
  | pubAck p | pubRec p | pubRel p | pubComp p => exact p.length_encodeBody h
  | subscribe p => exact p.length_encodeBody h
  | subAck p => exact p.length_encodeBody h
  | unsubscribe p => exact p.length_encodeBody h
  | unsubAck p => exact p.length_encodeBody h
  | pingReq | pingResp =>
    cases h
    rfl
  | disconnect p => exact p.length_encodeBody h

theorem nonzeroId_eq_ok {id : UInt16} : nonzeroId id = .ok () ↔ id ≠ 0 := by
  unfold nonzeroId
  split <;> simp_all

theorem listed_of_check {α : Type} {filters : List α} {id : UInt16}
    (h : (if filters.isEmpty then .error .emptySubscription else nonzeroId id) = .ok ()) :
    filters ≠ [] ∧ id ≠ 0 := by
  cases filters with
  | nil => cases h
  | cons f fs => exact ⟨List.cons_ne_nil f fs, nonzeroId_eq_ok.1 h⟩

theorem check_of_listed {α : Type} {filters : List α} {id : UInt16} (some : filters ≠ [])
    (ne : id ≠ 0) :
    (if filters.isEmpty then .error .emptySubscription else nonzeroId id) = .ok () := by
  rw [if_neg (by simpa using some)]
  exact nonzeroId_eq_ok.2 ne

theorem decodeBody_encodeBody {p : Packet} {b : Bytes} (hc : p.check = .ok ())
    (h : p.encodeBody = .ok b) (hb : b ≠ []) :
    Yields (decodeBody p.type p.flags b) p.outcome p.texts := by
  cases p with
  | connect p => exact (p.reads_encodeBody h).all.withinMap connect
  | connAck p => exact (p.reads_encodeBody h).withinMap connAck
  | publish p => exact (p.reads_encodeBody hc h).withinMap publish
  | pubAck p => exact (p.reads_encodeBody (nonzeroId_eq_ok.1 hc) h).withinMap pubAck
  | pubRec p => exact (p.reads_encodeBody (nonzeroId_eq_ok.1 hc) h).withinMap pubRec
  | pubRel p => exact (p.reads_encodeBody (nonzeroId_eq_ok.1 hc) h).withinMap pubRel
  | pubComp p => exact (p.reads_encodeBody (nonzeroId_eq_ok.1 hc) h).withinMap pubComp
  | subscribe p =>
    obtain ⟨some, id⟩ := listed_of_check hc
    exact (p.reads_encodeBody id some h).withinMap subscribe
  | subAck p =>
    rw [outcome]
    split
    · next none =>
      have := (p.refuses_encodeBody none h).map fun r => subAck r.1
      rwa [← within_map] at this
    · next some => exact (p.reads_encodeBody some h).withinMap subAck
  | unsubscribe p =>
    obtain ⟨some, id⟩ := listed_of_check hc
    exact (p.reads_encodeBody id some h).withinMap unsubscribe
  | unsubAck p => exact (p.reads_encodeBody h).withinMap unsubAck
  | pingReq | pingResp =>
    cases h
    contradiction
  | disconnect p => exact (p.reads_encodeBody hb h).withinMap disconnect

theorem withoutBody_of_bodySize {p : Packet} (h : p.bodySize = 0) :
    withoutBody p.type = p.outcome ∧ p.texts = [] := by
  cases p with
  | pingReq | pingResp => exact ⟨rfl, rfl⟩
  | disconnect p =>
    obtain ⟨reason, properties⟩ := p
    simp only [bodySize, Disconnect.bodySize] at h
    split at h
    · next none =>
      cases List.isEmpty_iff.1 none
      split at h
      · next normal =>
        cases normal
        exact ⟨rfl, rfl⟩
      · cases h
    · omega
  | connect | connAck | publish | subscribe | subAck | unsubscribe | unsubAck =>
    simp only [bodySize, Connect.bodySize, ConnAck.bodySize, Publish.bodySize, Subscribe.bodySize,
      SubAck.bodySize, Unsubscribe.bodySize, UnsubAck.bodySize] at h
    omega
  | pubAck | pubRec | pubRel | pubComp =>
    simp only [bodySize, Ack.bodySize] at h
    split at h
    · split at h <;> cases h
    · omega

def header (p : Packet) : FixedHeader where
  firstByte := p.firstByte
  lengthBytes := VarInt.size p.bodySize
  bodySize := p.bodySize

theorem firstByte_eq (p : Packet) :
    p.firstByte >>> 4 = p.type.number ∧ p.firstByte &&& 0x0F = p.flags := by
  cases p with
  | publish p =>
    simp only [firstByte, flags, type, Publish.flags]
    generalize p.qos = qos, p.dup = dup, p.retain = retain
    cases qos <;> cases dup <;> cases retain <;> decide
  | _ =>
    simp only [firstByte, flags, type]
    decide

theorem packetType_header (p : Packet) : p.header.packetType = .ok p.type := by
  simp only [FixedHeader.packetType, header, p.firstByte_eq.1, PacketType.ofNumber?_number]

theorem flags_header (p : Packet) : p.header.flags = p.flags := p.firstByte_eq.2

theorem checkFlags_header (p : Packet) : p.header.checkFlags p.type = .ok () := by
  rw [FixedHeader.checkFlags, flags_header]
  cases p <;> rfl

theorem ofFrame_of_packetType {header : FixedHeader} {type : PacketType}
    (named : header.packetType = .ok type) (flagged : header.checkFlags type = .ok ())
    (body : Bytes) :
    ofFrame header body =
      if header.bodySize = 0 then withoutBody type else decodeBody type header.flags body := by
  rw [ofFrame, named]
  change (header.checkFlags type >>= fun _ => _) = _
  rw [flagged]
  rfl

theorem ofFrame_encodeBody {p : Packet} {body : Bytes} (hc : p.check = .ok ())
    (h : p.encodeBody = .ok body) : Yields (ofFrame p.header body) p.outcome p.texts := by
  have length := length_encodeBody h
  have read : ofFrame p.header body =
      if p.bodySize = 0 then withoutBody p.type else decodeBody p.type p.flags body := by
    rw [ofFrame_of_packetType p.packetType_header p.checkFlags_header, flags_header]
    rfl
  rw [read]
  split
  · next empty =>
    obtain ⟨same, none⟩ := withoutBody_of_bodySize empty
    rw [none]
    exact .of_eq same
  · next some =>
    refine decodeBody_encodeBody hc h ?_
    rintro rfl
    exact some length.symm

theorem encode_eq_ok {p : Packet} {b : Bytes} :
    p.encode = .ok b ↔ p.check = .ok () ∧ p.bodySize ≤ VarInt.maxValue ∧
      ∃ body, p.encodeBody = .ok body ∧
        p.firstByte :: (VarInt.groups 4 p.bodySize ++ body) = b := by
  simp only [encode, bind_eq_ok, VarInt.encode_eq_ok]
  constructor
  · rintro ⟨⟨⟩, hc, length, ⟨fits, rfl⟩, body, hb, h⟩
    cases h
    exact ⟨hc, fits, body, hb, rfl⟩
  · rintro ⟨hc, fits, body, hb, rfl⟩
    exact ⟨(), hc, _, ⟨fits, rfl⟩, body, hb, rfl⟩

theorem length_encode {p : Packet} {b : Bytes} (h : p.encode = .ok b) :
    b.length = p.header.frameLength := by
  obtain ⟨-, -, body, hb, rfl⟩ := encode_eq_ok.1 h
  simp only [List.length_cons, List.length_append, VarInt.length_groups, length_encodeBody hb,
    FixedHeader.frameLength, header]
  omega

theorem decode_header {p : Packet} {b : Bytes} (h : p.encode = .ok b) (rest : Bytes) :
    FixedHeader.decode (b ++ rest) = .ok p.header := by
  obtain ⟨-, fits, body, -, rfl⟩ := encode_eq_ok.1 h
  have number := VarInt.decode_groups fits (body ++ rest)
  have some : 0 < (VarInt.groups 4 p.bodySize ++ (body ++ rest)).length := by
    rw [List.length_append, VarInt.length_groups]
    exact Nat.add_pos_left (VarInt.size_pos _) _
  obtain ⟨x, more, e⟩ := List.exists_cons_of_length_pos some
  rw [List.cons_append, List.append_assoc]
  rw [e] at number ⊢
  rw [FixedHeader.decode, number]
  rfl

theorem check_encode {p : Packet} {b : Bytes} (h : p.encode = .ok b) (rest : Bytes) {limit : Nat}
    (hl : p.bodySize ≤ limit) : FixedHeader.check (b ++ rest) limit = .ok p.header := by
  have small : ¬ p.header.bodySize > limit := Nat.not_lt.2 hl
  have whole : ¬ (b ++ rest).length < p.header.frameLength := by
    rw [List.length_append, length_encode h]
    omega
  rw [FixedHeader.check, decode_header h rest]
  change (if _ then _ else _ : Except WireError FixedHeader) = _
  rw [if_neg small]
  change (if _ then _ else _ : Except WireError FixedHeader) = _
  rw [if_neg whole]
  rfl

theorem drop_header {p : Packet} {b : Bytes} (h : p.encode = .ok b) :
    ∃ body, p.encodeBody = .ok body ∧ b.drop (1 + p.header.lengthBytes) = body := by
  obtain ⟨-, -, body, hb, rfl⟩ := encode_eq_ok.1 h
  refine ⟨body, hb, ?_⟩
  rw [header, ← VarInt.length_groups, Nat.add_comm, List.drop_succ_cons, List.drop_left]

theorem read_encode {p : Packet} {b : Bytes} (h : p.encode = .ok b) :
    ∃ r, Yields r p.outcome p.texts ∧ ∀ rest limit, p.bodySize ≤ limit →
      decode (b ++ rest) limit = r.map (·, b.length) ∧ read (b ++ rest) limit = (r, rest) := by
  obtain ⟨body, hb, cut⟩ := drop_header h
  refine ⟨_, ofFrame_encodeBody (encode_eq_ok.1 h).1 hb, fun rest limit hl => ⟨?_, ?_⟩⟩
  · rw [decode, check_encode h rest hl]
    change (ofFrame _ _ >>= _ : Except WireError (Packet × Nat)) = _
    rw [← length_encode h, List.take_left, cut]
    cases ofFrame p.header body <;> rfl
  · rw [read, check_encode h rest hl]
    dsimp only
    rw [List.splitAt_eq, ← length_encode h, List.take_left, List.drop_left, cut]

theorem outcome_eq_ok {p : Packet} (h : ∀ q, p = subAck q → q.returnCodes ≠ []) :
    p.outcome = .ok p := by
  cases p with
  | subAck q => exact if_neg (h q rfl)
  | _ => rfl

theorem outcome_subAck {q : SubAck} (h : q.returnCodes = []) :
    (subAck q).outcome = .error .malformedPacket := if_pos h

/-- Reading undoes writing. What was written is read back whatever stands behind it, under every
limit that its body keeps to. -/
theorem read_back_of_encode {p : Packet} {b : Bytes} (h : p.encode = .ok b)
    (plain : ∀ s ∈ p.texts, '\x00' ∉ s.toList)
    (codes : ∀ q, p = subAck q → q.returnCodes ≠ []) :
    ∃ header, FixedHeader.decode b = .ok header ∧ ∀ rest limit, header.bodySize ≤ limit →
      decode (b ++ rest) limit = .ok (p, b.length) ∧ read (b ++ rest) limit = (.ok p, rest) := by
  obtain ⟨r, yields, reads⟩ := read_encode h
  have same : r = .ok p := (yields.accepts plain).trans (outcome_eq_ok codes)
  subst same
  exact ⟨p.header, by simpa using decode_header h [], reads⟩

theorem read_back_connect :
    let p := connect
      { clientId := "c", username := some "u", properties := [.twoBytes .receiveMaximum 3],
        lastWill := some
          { topic := "a", message := [1], qos := .atLeastOnce, retain := true,
            properties := [.userProperty "k" "v"] } }
    let b : Bytes :=
      [16, 34, 0, 4, 77, 81, 84, 84, 5, 174, 0, 10, 3, 33, 0, 3, 0, 1, 99, 7, 38, 0, 1, 107, 0, 1,
        118, 0, 1, 97, 0, 1, 1, 0, 1, 117]
    p.encode = .ok b ∧ ∃ header, FixedHeader.decode b = .ok header ∧ header.bodySize = 34 ∧
      read (b ++ [192]) 34 = (.ok p, [192]) := by
  intro p b
  have written : p.encode = .ok b := by
    unfold p b
    rfl
  obtain ⟨header, decoded, back⟩ := read_back_of_encode written (by decide) nofun
  have size : header.bodySize = 34 := by
    cases decoded
    rfl
  exact ⟨written, header, decoded, size, (back [192] 34 (by omega)).2⟩

/-- A packet that is written is read again unless one of its texts has the character zero or it
acknowledges no filter. -/
theorem decode_encode_iff {p : Packet} {b : Bytes} (h : p.encode = .ok b) {limit : Nat}
    (hl : VarInt.maxValue ≤ limit) :
    (∃ r, decode b limit = .ok r) ↔
      (∀ s ∈ p.texts, '\x00' ∉ s.toList) ∧ ∀ q, p = subAck q → q.returnCodes ≠ [] := by
  obtain ⟨r, yields, reads⟩ := read_encode h
  have read := (reads [] limit (Nat.le_trans (encode_eq_ok.1 h).2.1 hl)).1
  rw [List.append_nil] at read
  constructor
  · rintro ⟨out, hout⟩
    have plain : Plain p.texts := by
      by_contra no
      rw [read, yields.refuses no] at hout
      cases hout
    refine ⟨plain, ?_⟩
    rintro q rfl none
    rw [read, yields.accepts plain, outcome_subAck none] at hout
    cases hout
  · rintro ⟨plain, codes⟩
    rw [read, yields.accepts plain, outcome_eq_ok codes]
    exact ⟨_, rfl⟩

theorem decode_encode_pubAck :
    let p := pubAck { packetId := 7, reason := .success }
    p.encode = .ok [64, 2, 0, 7] ∧ ∃ r, decode [64, 2, 0, 7] VarInt.maxValue = .ok r := by
  intro p
  have written : p.encode = .ok [64, 2, 0, 7] := by
    unfold p
    rfl
  exact ⟨written, (decode_encode_iff written (Nat.le_refl _)).2 ⟨by decide, nofun⟩⟩

theorem decode_encode_refused :
    (∃ b, (connect { clientId := "a\x00b" }).encode = .ok b ∧
      decode b 18446744073709551615 = .error .notUtf8) ∧
    ∃ b, (subAck { packetId := 1, returnCodes := [] }).encode = .ok b ∧
      decode b 18446744073709551615 = .error .malformedPacket :=
  ⟨⟨_, rfl, rfl⟩, _, rfl, rfl⟩

end Packet

end MqttClient
