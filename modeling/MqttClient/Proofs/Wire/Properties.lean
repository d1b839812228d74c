import MqttClient.Proofs.Wire.Reads

/-! The list of properties of a packet is read back as it was written, each property in its shape
and all of them in their order; and it is as long as it was said to be. -/

namespace MqttClient

open Decoder

namespace Property

def texts : Property → List String
  | text _ value => [value]
  | userProperty key value => [key, value]
  | _ => []

theorem length_encodeValue {p : Property} {b : Bytes} (h : p.encodeValue = .ok b) :
    b.length = p.valueSize := by
  cases p with
  | byte id value | twoBytes id value | fourBytes id value =>
    cases h
    rfl
  | text id value => exact length_encodeText h
  | binary id value => exact length_encodeBinary h
  | subscriptionIdentifier value =>
    obtain ⟨-, rfl⟩ := VarInt.encode_eq_ok.1 h
    exact VarInt.length_groups value
  | userProperty key value =>
    simp only [encodeValue, bind_eq_ok] at h
    obtain ⟨k, hk, v, hv, h⟩ := h
    cases h
    rw [List.length_append, length_encodeText hk, length_encodeText hv, valueSize]
    omega

theorem reads_encodeValue {p : Property} {b : Bytes} (h : p.encodeValue = .ok b) :
    Reads (decodeValue p.id) b p p.texts := by
  cases p with
  | byte id value =>
    cases h
    exact (reads_byte value).bindPure _
  | twoBytes id value =>
    cases h
    exact (reads_twoBytes value).bindPure _
  | fourBytes id value =>
    cases h
    exact (reads_fourBytes value).bindPure _
  | text id value => exact (reads_text h).bindPure _
  | binary id value => exact (reads_binary h).bindPure _
  | subscriptionIdentifier value => exact (reads_varInt h).bindPure _
  | userProperty key value =>
    simp only [encodeValue, bind_eq_ok] at h
    obtain ⟨k, hk, v, hv, h⟩ := h
    cases h
    exact (reads_text hk).bind ((reads_text hv).bindPure _)

theorem encode_eq_ok {p : Property} {b : Bytes} :
    p.encode = .ok b ↔ ∃ value, p.encodeValue = .ok value ∧ p.id.code :: value = b := by
  simp only [encode, bind_eq_ok, pure, Except.pure, Except.ok.injEq]

theorem length_encode {p : Property} {b : Bytes} (h : p.encode = .ok b) : b.length = p.size := by
  obtain ⟨value, hv, rfl⟩ := encode_eq_ok.1 h
  rw [List.length_cons, length_encodeValue hv, size, Nat.add_comm]

theorem reads_encode {p : Property} {b : Bytes} (h : p.encode = .ok b) :
    Reads decode b p p.texts := by
  obtain ⟨value, hv, rfl⟩ := encode_eq_ok.1 h
  refine (reads_byte p.id.code).bindPlain ?_
  simpa using reads_encodeValue hv

end Property

namespace Properties

def texts (ps : Properties) : List String := ps.flatMap Property.texts

theorem encode_eq_ok {ps : Properties} {b : Bytes} :
    encode ps = .ok b ↔ ∃ length entries, VarInt.encode ps.blockSize = .ok length ∧
      List.Forall₂ (fun p entry => p.encode = .ok entry) ps entries ∧
      length ++ entries.flatten = b := by
  simp only [encode, bind_eq_ok, mapM_eq_ok, pure, Except.pure, Except.ok.injEq]
  exact exists_congr fun _ => exists_and_left.symm

theorem length_entries {ps : Properties} {entries : List Bytes}
    (h : List.Forall₂ (fun p entry => p.encode = .ok entry) ps entries) :
    entries.flatten.length = ps.blockSize :=
  length_flatten_eq_foldr (h.imp fun _ _ hp => Property.length_encode hp)

theorem length_encode {ps : Properties} {b : Bytes} (h : encode ps = .ok b) :
    b.length = ps.size := by
  obtain ⟨length, entries, hl, he, rfl⟩ := encode_eq_ok.1 h
  obtain ⟨-, rfl⟩ := VarInt.encode_eq_ok.1 hl
  rw [List.length_append, VarInt.length_groups, length_entries he, size]

theorem size_pos (ps : Properties) : 0 < ps.size :=
  Nat.lt_of_lt_of_le (VarInt.size_pos _) (Nat.le_add_right _ _)

theorem reads_encode {ps : Properties} {b : Bytes} (h : encode ps = .ok b) :
    Reads decode b ps ps.texts := by
  obtain ⟨length, entries, hl, he, rfl⟩ := encode_eq_ok.1 h
  have items : ReadsAll (items Property.decode) entries.flatten ps ps.texts := by
    refine reads_items (he.imp fun p entry hp => ⟨?_, Property.reads_encode hp⟩)
    obtain ⟨value, -, rfl⟩ := Property.encode_eq_ok.1 hp
    exact List.cons_ne_nil _ _
  have block := reads_span entries.flatten
  rw [length_entries he] at block
  rw [← List.append_nil entries.flatten]
  exact (reads_varInt hl).bindPlain (block.bindPlain (.lift items.within))

end Properties

end MqttClient
