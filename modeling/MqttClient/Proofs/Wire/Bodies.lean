import MqttClient.Packet.Encode
import MqttClient.Proofs.Wire.Properties

/-! The body of each packet is read back as it was written and is as long as it was said to be. The
one exception is an acknowledgement of a subscription that lists nothing: it is written, and refused
by its reader. -/

namespace MqttClient

open Decoder

theorem QoS.reads_level (q : QoS) : Yields (QoS.decode q.level) (.ok q) [] :=
  .of_eq (by simp [QoS.decode])

namespace LastWill

def texts (w : LastWill) : List String := Properties.texts w.properties ++ [w.topic]

theorem length_encode {w : LastWill} {b : Bytes} (h : w.encode = .ok b) : b.length = w.size := by
  simp only [encode, bind_eq_ok] at h
  obtain ⟨properties, hp, topic, ht, message, hm, h⟩ := h
  cases h
  simp only [List.length_append, Properties.length_encode hp, length_encodeText ht,
    length_encodeBinary hm, size]

theorem flags_eq (w : LastWill) :
    w.flags &&& 0x04 ≠ 0 ∧ (w.flags &&& 0x18) >>> 3 = w.qos.level ∧
      (w.flags &&& 0x20 ≠ 0 ↔ w.retain = true) := by
  unfold flags
  generalize w.qos = qos, w.retain = retain
  cases qos <;> cases retain <;> decide

end LastWill

namespace Connect

def texts (p : Connect) : List String :=
  Properties.texts p.properties ++
    (p.clientId :: (p.lastWill.elim [] LastWill.texts ++ p.username.elim [] ([·])))

theorem willFlags_mem (w : Option LastWill) :
    w.elim 0 LastWill.flags ∈ [0x00, 0x04, 0x0C, 0x14, 0x24, 0x2C, 0x34] := by
  cases w with
  | none => decide
  | some w =>
    rw [Option.elim_some, LastWill.flags]
    generalize w.qos = qos, w.retain = retain
    cases qos <;> cases retain <;> decide

theorem flagByte_eq : ∀ clean password username : Bool,
    ∀ will ∈ ([0x00, 0x04, 0x0C, 0x14, 0x24, 0x2C, 0x34] : List UInt8),
      let flags := clean.toUInt8 <<< 1 ||| will ||| password.toUInt8 <<< 6 |||
        username.toUInt8 <<< 7
      flags &&& 0x01 = 0 ∧ (flags &&& 0x02 ≠ 0 ↔ clean = true) ∧ flags &&& 0x3C = will ∧
        (flags &&& 0x40 = 0 ↔ password = false) ∧ (flags &&& 0x80 = 0 ↔ username = false) := by
  decide +kernel

theorem flags_eq (p : Connect) :
    p.flags &&& 0x01 = 0 ∧ (p.flags &&& 0x02 ≠ 0 ↔ p.cleanStart = true) ∧
      p.flags &&& 0x3C = p.lastWill.elim 0 LastWill.flags ∧
      (p.flags &&& 0x40 = 0 ↔ p.password = none) ∧ (p.flags &&& 0x80 = 0 ↔ p.username = none) := by
  have := flagByte_eq p.cleanStart p.password.isSome p.username.isSome _ (willFlags_mem p.lastWill)
  simpa [flags] using this

theorem reads_protocolName {b : Bytes} (h : encodeText protocolName = .ok b) :
    Reads text b protocolName [] :=
  fun rest => .of_eq ((reads_text h rest).accepts (by decide))

theorem length_encodeBody {p : Connect} {b : Bytes} (h : p.encodeBody = .ok b) :
    b.length = p.bodySize := by
  simp only [encodeBody, bind_eq_ok] at h
  obtain ⟨name, hn, properties, hp, id, hi, will, hw, user, hu, password, hpw, h⟩ := h
  cases h
  have hw : will.length = p.lastWill.elim 0 LastWill.size := by
    cases hl : p.lastWill <;> rw [hl] at hw
    · cases hw
      rfl
    · exact LastWill.length_encode hw
  have hu : user.length = p.username.elim 0 (2 + ·.utf8ByteSize) := by
    cases hl : p.username <;> rw [hl] at hu
    · cases hu
      rfl
    · exact length_encodeText hu
  have hpw : password.length = p.password.elim 0 (2 + ·.length) := by
    cases hl : p.password <;> rw [hl] at hpw
    · cases hpw
      rfl
    · exact length_encodeBinary hpw
  simp only [List.length_append, length_encodeText hn, Properties.length_encode hp,
    length_encodeText hi, hw, hu, hpw, bodySize, Bytes.length_ofUInt16, List.length_cons,
    List.length_nil]

theorem reads_will {p : Connect} {b : Bytes}
    (h : p.lastWill.elim (.ok []) LastWill.encode = .ok b) :
    Reads (LastWill.decode p.flags) b p.lastWill (p.lastWill.elim [] LastWill.texts) := by
  obtain ⟨-, -, bits, -, -⟩ := p.flags_eq
  -- the bits of the will are read one by one, out of those that were found to be the will's
  have bit : ∀ m : UInt8, 0x3C &&& m = m →
      p.flags &&& m = p.lastWill.elim 0 LastWill.flags &&& m := by
    intro m hm
    rw [← bits, UInt8.and_assoc, hm]
  rw [LastWill.decode, bit 0x04 rfl, bit 0x38 rfl, bit 0x18 rfl, bit 0x20 rfl]
  cases hl : p.lastWill with
  | none =>
    rw [hl] at h
    cases h
    exact .pure none
  | some w =>
    rw [hl] at h
    obtain ⟨present, qos, retain⟩ := w.flags_eq
    simp only [Option.elim_some, LastWill.encode, bind_eq_ok] at h ⊢
    obtain ⟨properties, hp, topic, ht, message, hm, h⟩ := h
    cases h
    rw [List.append_assoc, qos]
    simp only [retain, Bool.decide_eq_true]
    refine .unless present ((Properties.reads_encode hp).bind ((reads_text ht).bind ?_))
    exact (reads_binary hm).bindEmpty ((Reads.lift w.qos.reads_level).bindPure _)

theorem reads_encodeBody {p : Connect} {b : Bytes} (h : p.encodeBody = .ok b) :
    Reads decode b p p.texts := by
  obtain ⟨reserved, clean, -, noPassword, noUsername⟩ := p.flags_eq
  simp only [encodeBody, bind_eq_ok] at h
  obtain ⟨name, hn, properties, hp, id, hi, will, hw, user, hu, password, hpw, h⟩ := h
  cases h
  simp only [List.append_assoc]
  refine (reads_protocolName hn).bindPlain (.unless (by simp) ?_)
  refine (reads_byte protocolLevel).bindPlain (.unless (by simp) ?_)
  refine (reads_byte p.flags).bindPlain (.unless (by simp [reserved]) ?_)
  refine (reads_twoBytes p.keepAlive).bindPlain ((Properties.reads_encode hp).bind ?_)
  refine (reads_text hi).bind ((reads_will hw).bind ?_)
  simp only [clean, Bool.decide_eq_true]
  have secret : Reads (if p.flags &&& 0x40 = 0 then pure none else some <$> binary) password
      p.password (p.password.elim [] fun _ => []) := .optional noPassword hpw reads_binary
  rw [show p.password.elim [] (fun _ => []) = [] by cases p.password <;> rfl] at secret
  simp only [bind_ite]
  rw [← List.append_nil (p.username.elim [] _)]
  exact (Reads.optional noUsername hu reads_text).bind (secret.bindPure _)

end Connect

namespace ConnAck

def texts (p : ConnAck) : List String := Properties.texts p.properties

theorem length_encodeBody {p : ConnAck} {b : Bytes} (h : p.encodeBody = .ok b) :
    b.length = p.bodySize := by
  simp only [encodeBody, bind_eq_ok] at h
  obtain ⟨properties, hp, h⟩ := h
  cases h
  simp [Properties.length_encode hp, bodySize]
  omega

theorem reads_encodeBody {p : ConnAck} {b : Bytes} (h : p.encodeBody = .ok b) :
    ReadsAll decode b p p.texts := by
  simp only [encodeBody, bind_eq_ok] at h
  obtain ⟨properties, hp, h⟩ := h
  cases h
  have written : properties ≠ [] := by
    rw [← List.length_pos_iff, Properties.length_encode hp]
    exact Properties.size_pos _
  have flags : p.sessionPresent.toUInt8 &&& 0xFE = 0 ∧
      (p.sessionPresent.toUInt8 &&& 0x01 ≠ 0 ↔ p.sessionPresent = true) := by
    cases p.sessionPresent <;> decide
  refine (reads_byte p.sessionPresent.toUInt8).bindPlainAll ?_
  simp only [flags, Bool.decide_eq_true]
  refine (reads_byte (ReasonCode.code p.code)).bindPlainAll ?_
  refine (Reads.lift (reads_reason _ p.code)).bindPlainAll (.notAtEnd written ?_)
  exact ((Properties.reads_encode hp).bindPure _).all

end ConnAck

namespace Publish

def texts (p : Publish) : List String := p.topic :: Properties.texts p.properties

theorem length_encodeBody {p : Publish} {b : Bytes} (h : p.encodeBody = .ok b) :
    b.length = p.bodySize := by
  simp only [encodeBody, bind_eq_ok] at h
  obtain ⟨topic, ht, properties, hp, h⟩ := h
  cases h
  simp only [List.length_append, length_encodeText ht, Properties.length_encode hp, bodySize]
  split <;> simp

theorem flags_eq (p : Publish) :
    (p.flags &&& 0x06) >>> 1 = p.qos.level ∧ (p.flags &&& 0x08 ≠ 0 ↔ p.dup = true) ∧
      (p.flags &&& 0x01 ≠ 0 ↔ p.retain = true) := by
  unfold flags
  generalize p.qos = qos, p.dup = dup, p.retain = retain
  cases qos <;> cases dup <;> cases retain <;> decide

theorem packetId_of_check {p : Publish} (h : p.checkPacketId = .ok ()) :
    p.packetId = 0 ↔ p.qos = .atMostOnce := by
  unfold checkPacketId at h
  split at h <;> split at h <;> simp_all

theorem reads_packetId {p : Publish} (hc : p.checkPacketId = .ok ()) :
    Reads (if p.qos = .atMostOnce then pure 0 else nonzeroId)
      (if p.qos = .atMostOnce then [] else Bytes.ofUInt16 p.packetId) p.packetId [] := by
  have zero := packetId_of_check hc
  split
  · next qos =>
    rw [zero.2 qos]
    exact .pure 0
  · next qos => exact reads_nonzeroId (mt zero.1 qos)

theorem reads_encodeBody {p : Publish} {b : Bytes} (hc : p.checkPacketId = .ok ())
    (h : p.encodeBody = .ok b) : ReadsAll (decode p.flags) b p p.texts := by
  obtain ⟨qos, dup, retain⟩ := p.flags_eq
  simp only [encodeBody, bind_eq_ok] at h
  obtain ⟨topic, ht, properties, hp, h⟩ := h
  cases h
  simp only [List.append_assoc, decode, qos, dup, retain, Bool.decide_eq_true, bind_ite]
  refine (Reads.lift p.qos.reads_level).bindPlainAll ((reads_text ht).bindAll ?_)
  refine (reads_packetId hc).bindPlainAll ((Properties.reads_encode hp).bindRest ?_)
  exact (reads_remaining p.payload).bindEmpty (.pure p)

end Publish

namespace Ack

variable {R : Type} [ReasonCode R]

def texts (a : Ack R) : List String := Properties.texts a.properties

theorem encodeBody_eq_ok {a : Ack R} {b : Bytes} :
    a.encodeBody = .ok b ↔
      (a.properties = [] ∧ Bytes.ofUInt16 a.packetId ++
          (if ReasonCode.code a.reason = 0 then [] else [ReasonCode.code a.reason]) = b) ∨
        (a.properties ≠ [] ∧ ∃ properties, Properties.encode a.properties = .ok properties ∧
          Bytes.ofUInt16 a.packetId ++ [ReasonCode.code a.reason] ++ properties = b) := by
  unfold encodeBody
  by_cases none : a.properties = []
  · simp [none]
  · simp [none, bind_eq_ok, pure, Except.pure]

theorem length_encodeBody {a : Ack R} {b : Bytes} (h : a.encodeBody = .ok b) :
    b.length = a.bodySize := by
  obtain ⟨none, rfl⟩ | ⟨some, properties, hp, rfl⟩ := encodeBody_eq_ok.1 h
  · simp only [bodySize, none, List.length_append]
    split <;> simp
  · simp [bodySize, some, Properties.length_encode hp]
    omega

theorem reads_encodeBody {a : Ack R} {b : Bytes} (hid : a.packetId ≠ 0)
    (h : a.encodeBody = .ok b) : ReadsAll (decode b.length) b a a.texts := by
  have reason := Reads.lift (reads_reason .invalidReason a.reason)
  obtain ⟨none, rfl⟩ | ⟨some, properties, hp, rfl⟩ := encodeBody_eq_ok.1 h
  · obtain ⟨id, r, ps⟩ := a
    cases none
    -- the two short forms are told by their length
    refine (reads_nonzeroId hid).bindPlainAll (Reads.all ?_)
    by_cases code : ReasonCode.code r = 0
    · simp only [code, if_true] at reason ⊢
      exact .when rfl ((Reads.pure 0).bindPlain (.when (by simp)
        ((Reads.pure []).bindPlain (reason.bindPure _))))
    · simp only [code, if_false]
      exact .unless (by simp) ((reads_byte _).bindPlain (.when (by simp)
        ((Reads.pure []).bindPlain (reason.bindPure _))))
  · obtain ⟨n, length, long⟩ : ∃ n,
        (Bytes.ofUInt16 a.packetId ++ [ReasonCode.code a.reason] ++ properties).length = n ∧
          3 < n := by
      have := Properties.size_pos a.properties
      refine ⟨_, rfl, ?_⟩
      simp [Properties.length_encode hp]
      omega
    rw [length]
    rw [List.append_assoc]
    refine ((reads_nonzeroId hid).bindPlain (.unless (by omega) ?_)).all
    refine (reads_byte _).bindPlain (.unless (by omega) ?_)
    exact (Properties.reads_encode hp).bindEmpty (reason.bindPure _)

end Ack

namespace Filter

theorem length_encode {f : Filter} {b : Bytes} (h : f.encode = .ok b) : b.length = f.size := by
  simp only [encode, bind_eq_ok] at h
  obtain ⟨path, hp, h⟩ := h
  cases h
  simp [length_encodeText hp, size]

theorem options_eq (f : Filter) :
    f.options &&& 0xC0 = 0 ∧ (f.options >>> 4) &&& 0x03 = f.retainForwardRule.number ∧
      f.options &&& 0x03 = f.qos.level ∧ (f.options &&& 0x04 ≠ 0 ↔ f.noLocal = true) ∧
      (f.options &&& 0x08 ≠ 0 ↔ f.preserveRetain = true) := by
  unfold options
  generalize f.qos = qos, f.noLocal = noLocal, f.preserveRetain = preserve,
    f.retainForwardRule = rule
  cases qos <;> cases noLocal <;> cases preserve <;> cases rule <;> decide

theorem reads_encode {f : Filter} {b : Bytes} (h : f.encode = .ok b) :
    Reads decode b f [f.path] := by
  obtain ⟨reserved, rule, qos, noLocal, preserve⟩ := f.options_eq
  simp only [encode, bind_eq_ok] at h
  obtain ⟨path, hp, h⟩ := h
  cases h
  refine (reads_text hp).bind ?_
  refine (reads_byte f.options).bindEmpty (.unless (by simp [reserved]) ?_)
  simp only [rule, RetainForwardRule.ofNumber?_number, qos, noLocal, preserve, Bool.decide_eq_true]
  exact (Reads.lift f.qos.reads_level).bindPure _

end Filter

namespace Subscribe

def texts (p : Subscribe) : List String :=
  Properties.texts p.properties ++ p.filters.flatMap fun f => [f.path]

theorem length_encodeBody {p : Subscribe} {b : Bytes} (h : p.encodeBody = .ok b) :
    b.length = p.bodySize := by
  simp only [encodeBody, bind_eq_ok, mapM_eq_ok] at h
  obtain ⟨properties, hp, filters, hf, h⟩ := h
  cases h
  have := length_flatten_eq_foldr (hf.imp fun _ _ h => Filter.length_encode h)
  rw [List.length_append, List.length_append, Properties.length_encode hp, this, bodySize]
  rfl

theorem reads_encodeBody {p : Subscribe} {b : Bytes} (hid : p.packetId ≠ 0) (hf : p.filters ≠ [])
    (h : p.encodeBody = .ok b) : ReadsAll decode b p p.texts := by
  simp only [encodeBody, bind_eq_ok, mapM_eq_ok] at h
  obtain ⟨properties, hp, filters, hfs, h⟩ := h
  cases h
  have list : ReadsAll (items Filter.decode) filters.flatten p.filters
      (p.filters.flatMap fun f => [f.path]) := by
    refine reads_items (hfs.imp fun f b hb => ⟨?_, Filter.reads_encode hb⟩)
    rw [← List.length_pos_iff, Filter.length_encode hb]
    exact Nat.succ_pos _
  rw [List.append_assoc]
  refine (reads_nonzeroId hid).bindPlainAll ((Properties.reads_encode hp).bindAll ?_)
  exact list.bindEmpty (.unless (by simp [hf]) (.pure p))

end Subscribe

namespace SubAck

def texts (p : SubAck) : List String := Properties.texts p.properties

theorem length_encodeBody {p : SubAck} {b : Bytes} (h : p.encodeBody = .ok b) :
    b.length = p.bodySize := by
  simp only [encodeBody, bind_eq_ok] at h
  obtain ⟨properties, hp, h⟩ := h
  cases h
  simp [Properties.length_encode hp, bodySize]
  omega

theorem reads_encodeBody {p : SubAck} {b : Bytes} (hc : p.returnCodes ≠ [])
    (h : p.encodeBody = .ok b) : ReadsAll decode b p p.texts := by
  simp only [encodeBody, bind_eq_ok] at h
  obtain ⟨properties, hp, h⟩ := h
  cases h
  rw [List.append_assoc]
  refine (reads_twoBytes p.packetId).bindPlainAll ((Properties.reads_encode hp).bindRest ?_)
  refine .notAtEnd (by simp [hc]) ?_
  exact (reads_reasonList _ p.returnCodes).bindEmpty (.pure p)

theorem refuses_encodeBody {p : SubAck} {b : Bytes} (hc : p.returnCodes = [])
    (h : p.encodeBody = .ok b) : Yields (decode b) (.error .malformedPacket) p.texts := by
  simp only [encodeBody, bind_eq_ok] at h
  obtain ⟨properties, hp, h⟩ := h
  cases h
  rw [hc, List.append_assoc, ← List.append_nil p.texts]
  refine (reads_twoBytes p.packetId).bindYields (t := []) ?_
  exact (Properties.reads_encode hp).bindYields (.of_eq rfl)

end SubAck

namespace Unsubscribe

def texts (p : Unsubscribe) : List String :=
  Properties.texts p.properties ++ p.filters.flatMap fun f => [f]

theorem length_encodeBody {p : Unsubscribe} {b : Bytes} (h : p.encodeBody = .ok b) :
    b.length = p.bodySize := by
  simp only [encodeBody, bind_eq_ok, mapM_eq_ok] at h
  obtain ⟨properties, hp, filters, hf, h⟩ := h
  cases h
  have := length_flatten_eq_foldr (hf.imp fun _ _ h => length_encodeText h)
  rw [List.length_append, List.length_append, Properties.length_encode hp, this, bodySize]
  rfl

theorem reads_encodeBody {p : Unsubscribe} {b : Bytes} (hid : p.packetId ≠ 0) (hf : p.filters ≠ [])
    (h : p.encodeBody = .ok b) : ReadsAll decode b p p.texts := by
  simp only [encodeBody, bind_eq_ok, mapM_eq_ok] at h
  obtain ⟨properties, hp, filters, hfs, h⟩ := h
  cases h
  have list : ReadsAll (items text) filters.flatten p.filters (p.filters.flatMap fun f => [f]) := by
    refine reads_items (hfs.imp fun f b hb => ⟨?_, reads_text hb⟩)
    rw [← List.length_pos_iff, length_encodeText hb]
    omega
  rw [List.append_assoc]
  refine (reads_nonzeroId hid).bindPlainAll ((Properties.reads_encode hp).bindAll ?_)
  exact list.bindEmpty (.unless (by simp [hf]) (.pure p))

end Unsubscribe

namespace UnsubAck

def texts (p : UnsubAck) : List String := Properties.texts p.properties

theorem length_encodeBody {p : UnsubAck} {b : Bytes} (h : p.encodeBody = .ok b) :
    b.length = p.bodySize := by
  simp only [encodeBody, bind_eq_ok] at h
  obtain ⟨properties, hp, h⟩ := h
  cases h
  simp [Properties.length_encode hp, bodySize]
  omega

theorem reads_encodeBody {p : UnsubAck} {b : Bytes} (h : p.encodeBody = .ok b) :
    ReadsAll decode b p p.texts := by
  simp only [encodeBody, bind_eq_ok] at h
  obtain ⟨properties, hp, h⟩ := h
  cases h
  rw [List.append_assoc]
  refine (reads_twoBytes p.packetId).bindPlainAll ((Properties.reads_encode hp).bindRest ?_)
  exact (reads_reasonList _ p.reasons).bindEmpty (.pure p)

end UnsubAck

namespace Disconnect

def texts (p : Disconnect) : List String := Properties.texts p.properties

theorem encodeBody_eq_ok {p : Disconnect} {b : Bytes} :
    p.encodeBody = .ok b ↔
      (p.properties = [] ∧
          (if p.reason = .normalDisconnection then [] else [ReasonCode.code p.reason]) = b) ∨
        (p.properties ≠ [] ∧ ∃ properties, Properties.encode p.properties = .ok properties ∧
          [ReasonCode.code p.reason] ++ properties = b) := by
  unfold encodeBody
  by_cases none : p.properties = []
  · simp [none]
  · simp [none, bind_eq_ok, pure, Except.pure]

theorem length_encodeBody {p : Disconnect} {b : Bytes} (h : p.encodeBody = .ok b) :
    b.length = p.bodySize := by
  obtain ⟨none, rfl⟩ | ⟨some, properties, hp, rfl⟩ := encodeBody_eq_ok.1 h
  · simp only [bodySize, none]
    split <;> simp
  · simp [bodySize, some, Properties.length_encode hp]
    omega

theorem reads_encodeBody {p : Disconnect} {b : Bytes} (hb : b ≠ []) (h : p.encodeBody = .ok b) :
    ReadsAll decode b p p.texts := by
  have reason := Reads.lift (reads_reason .invalidReason p.reason)
  obtain ⟨none, rfl⟩ | ⟨some, properties, hp, rfl⟩ := encodeBody_eq_ok.1 h
  · obtain ⟨r, ps⟩ := p
    cases none
    have code : r ≠ .normalDisconnection := fun e => hb (if_pos e)
    rw [if_neg code, ← List.append_nil [_]]
    refine (reads_byte _).bindPlainAll (reason.bindPlainAll (.isAtEnd ?_))
    exact ((Reads.pure []).bindPure _).all
  · have written : properties ≠ [] := by
      rw [← List.length_pos_iff, Properties.length_encode hp]
      exact Properties.size_pos _
    refine (reads_byte _).bindPlainAll (reason.bindPlainAll (.notAtEnd written ?_))
    exact ((Properties.reads_encode hp).bindPure _).all

end Disconnect

end MqttClient
