import MqttClient.Proofs.Wire.Canonical
import MqttClient.Proofs.Wire.Limits

/-! What can be relied on when a packet was read: its identifier, its list, and its texts. The
acknowledgements of a subscription and of its end are the exception. Neither is refused for the
identifier zero, which belongs to no exchange, and the latter is not refused for an empty list
either. -/

namespace MqttClient

namespace Packet

def exchangeId? : Packet → Option UInt16
  | publish p => if p.qos = .atMostOnce then none else some p.packetId
  | pubAck p | pubRec p => some p.packetId
  | pubRel p | pubComp p => some p.packetId
  | subscribe p => some p.packetId
  | subAck p => some p.packetId
  | unsubscribe p => some p.packetId
  | unsubAck p => some p.packetId
  | connect _ | connAck _ | pingReq | pingResp | disconnect _ => none

def listed? : Packet → Option Nat
  | subscribe p => some p.filters.length
  | subAck p => some p.returnCodes.length
  | unsubscribe p => some p.filters.length
  | unsubAck p => some p.reasons.length
  | _ => none

/-- The identifier, the list and the texts are as they should be, up to an identifier that may be
zero or a list that may be empty. -/
structure WellFormedBut (p : Packet) (freeId freeList : Prop) : Prop where
  identified : ¬ freeId → ∀ id, p.exchangeId? = some id → id ≠ 0
  unidentified : ∀ q, p = publish q → q.qos = .atMostOnce → q.packetId = 0
  listed : ¬ freeList → ∀ n, p.listed? = some n → n ≠ 0
  texts : ∀ s ∈ p.texts, '\x00' ∉ s.toList ∧ s.utf8ByteSize ≤ 65535

def WellFormed (p : Packet) : Prop := p.WellFormedBut False False

variable {p : Packet} {b : Bytes} {limit n : Nat}

theorem rewritable_of_decode (h : decode b limit = .ok (p, n)) :
    ∃ size ≤ VarInt.maxValue, p.Rewritable size := by
  simp only [decode, bind_eq_ok] at h
  obtain ⟨header, hc, q, hf, e⟩ := h
  cases e
  obtain ⟨hd, -, whole⟩ := FixedHeader.check_eq_ok.1 hc
  refine ⟨header.bodySize, (bounds_of_header hd).2, rewritable_of_ofFrame ?_ hf⟩
  rw [List.length_drop, List.length_take, Nat.min_eq_left whole, FixedHeader.frameLength]
  omega

theorem le_of_mem_texts {s : String} (fits : p.bodySize ≤ VarInt.maxValue)
    (writes : ∃ body, p.encodeBody = .ok body) (h : s ∈ p.texts) : s.utf8ByteSize ≤ 65535 := by
  rw [texts_eq, List.mem_filterMap] at h
  obtain ⟨f, mem, text⟩ := h
  have small := (limited_encodeBody fits).1 writes f mem
  cases f with
  | text t =>
    cases text
    exact Nat.not_lt.1 small
  | binary | subscriptionIdentifier => cases text

theorem identified_of_proper {id : UInt16} (proper : ¬ p.Improper)
    (checked : ¬ (p.type = .subAck ∨ p.type = .unsubAck)) (same : p.exchangeId? = some id) :
    id ≠ 0 := by
  rintro rfl
  cases p with
  | publish q =>
    rw [exchangeId?, ite_eq_iff] at same
    obtain ⟨-, none⟩ | ⟨qos, same⟩ := same
    · cases none
    · exact proper (.publish qos (Option.some.inj same))
  | pubAck q => exact proper (.pubAck (Option.some.inj same))
  | pubRec q => exact proper (.pubRec (Option.some.inj same))
  | pubRel q => exact proper (.pubRel (Option.some.inj same))
  | pubComp q => exact proper (.pubComp (Option.some.inj same))
  | subscribe q => exact proper (.subscribe (.inr (Option.some.inj same)))
  | unsubscribe q => exact proper (.unsubscribe (.inr (Option.some.inj same)))
  | subAck q => exact checked (.inl rfl)
  | unsubAck q => exact checked (.inr rfl)
  | connect | connAck | pingReq | pingResp | disconnect => cases same

theorem listed_of_proper {m : Nat} (proper : ¬ p.Improper)
    (codes : ∀ q, p = subAck q → q.returnCodes ≠ []) (checked : p.type ≠ .unsubAck)
    (same : p.listed? = some m) : m ≠ 0 := by
  rintro rfl
  cases p with
  | subscribe q =>
    exact proper (.subscribe (.inl (List.length_eq_zero_iff.1 (Option.some.inj same))))
  | unsubscribe q =>
    exact proper (.unsubscribe (.inl (List.length_eq_zero_iff.1 (Option.some.inj same))))
  | subAck q => exact codes q rfl (List.length_eq_zero_iff.1 (Option.some.inj same))
  | unsubAck q => exact checked rfl
  | connect | connAck | publish | pubAck | pubRec | pubRel | pubComp | pingReq | pingResp
  | disconnect => cases same

/-- What was read is well formed, up to what is not checked of the two acknowledgements. -/
theorem wellFormed_of_decode (h : decode b limit = .ok (p, n)) :
    p.WellFormedBut (p.type = .subAck ∨ p.type = .unsubAck) (p.type = .unsubAck) := by
  obtain ⟨size, fits, read⟩ := rewritable_of_decode h
  have proper := proper_of_check read.check
  constructor
  case identified => exact fun checked _ => identified_of_proper proper checked
  case unidentified =>
    rintro q rfl qos
    by_contra id
    exact proper (.superfluousId qos id)
  case listed => exact fun checked _ => listed_of_proper proper read.codes checked
  case texts =>
    exact fun s mem => ⟨read.plain s mem, le_of_mem_texts (read.bodySize_le fits) read.writes mem⟩

theorem wellFormed_subscribe :
    let p := subscribe
      { packetId := 9, filters := [{ path := "a", qos := .atLeastOnce },
          { path := "b/#", qos := .exactlyOnce }] }
    decode [130, 13, 0, 9, 0, 0, 1, 97, 1, 0, 3, 98, 47, 35, 2] 16 = .ok (p, 15) ∧
      p.WellFormed := by
  intro p
  have read : decode [130, 13, 0, 9, 0, 0, 1, 97, 1, 0, 3, 98, 47, 35, 2] 16 = .ok (p, 15) := by
    unfold p
    rfl
  obtain ⟨identified, unidentified, listed, texts⟩ := wellFormed_of_decode read
  exact ⟨read, fun _ => identified nofun, unidentified, fun _ => listed nofun, texts⟩

/-- Both acknowledgements are read with the identifier zero, and one of them without a reason. -/
theorem not_wellFormed_of_decode :
    (∃ p n, decode [144, 4, 0, 0, 0, 0] 18446744073709551615 = .ok (p, n) ∧ ¬ p.WellFormed) ∧
    (∃ p n, decode [176, 4, 0, 0, 0, 0] 18446744073709551615 = .ok (p, n) ∧ ¬ p.WellFormed) ∧
    ∃ p n, decode [176, 3, 0, 1, 0] 18446744073709551615 = .ok (p, n) ∧ ¬ p.WellFormed :=
  ⟨⟨subAck { packetId := 0, returnCodes := [.success .atMostOnce] }, 6, rfl,
      fun h => h.identified id 0 rfl rfl⟩,
    ⟨unsubAck { packetId := 0, reasons := [.success] }, 6, rfl, fun h => h.identified id 0 rfl rfl⟩,
    ⟨unsubAck { packetId := 1, reasons := [] }, 5, rfl, fun h => h.listed id 0 rfl rfl⟩⟩

end Packet

end MqttClient
