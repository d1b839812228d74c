import MqttClient.Proofs.Wire.Stream
import MqttClient.Proofs.Wire.Continuation

/-! What the reader takes off a stream. A frame is told here by its bytes alone: if the stream
starts with one whose body keeps to the limit, the reader takes that frame, whatever it holds, and
in any other case nothing. While it waits it never asks for a byte more than the frame will need,
nor for more than the limit allows. -/

namespace MqttClient

namespace VarInt

theorem asks_of_decodeGroups {k : Nat} {b : Bytes} {j : Nat}
    (h : decodeGroups k b = .error (.insufficientBytes j)) : j = 1 ∧ b.length < k := by
  obtain ⟨-, cause⟩ := decodeGroups_eq_error.1 h
  split at cause
  · cases cause
  · next short =>
    cases cause
    exact ⟨rfl, Nat.not_le.1 short⟩

end VarInt

/-- A first byte, the size of the body in four bytes at most, and the body. -/
inductive WholeFrame : Bytes → (bodySize : Nat) → Prop
  | mk (firstByte : UInt8) {groups body : Bytes} (few : groups.length ≤ 4)
    (size : VarInt.Spells groups body.length) :
    WholeFrame (firstByte :: (groups ++ body)) body.length

namespace FixedHeader

variable {stream : Bytes} {limit k : Nat} {h : FixedHeader}

theorem decode_of_wholeFrame {f : Bytes} {n : Nat} (hf : WholeFrame f n) :
    ∃ h, decode f = .ok h ∧ h.bodySize = n ∧ h.frameLength = f.length := by
  obtain ⟨firstByte, few, size⟩ := hf
  refine ⟨_, decode_of_spells firstByte few size _, rfl, ?_⟩
  simp only [FixedHeader.frameLength, List.length_cons, List.length_append]
  omega

theorem wholeFrame_of_decode (hd : decode stream = .ok h) (whole : h.frameLength ≤ stream.length) :
    WholeFrame (stream.take h.frameLength) h.bodySize := by
  obtain ⟨groups, rest, rfl, length, few, size⟩ := spells_of_decode hd
  have there : h.bodySize ≤ rest.length := by
    simp only [FixedHeader.frameLength, List.length_cons, List.length_append] at whole
    omega
  have body : (rest.take h.bodySize).length = h.bodySize := List.length_take_of_le there
  have frame := WholeFrame.mk h.firstByte (length ▸ few) (body.symm ▸ size)
  rwa [body, ← take_frameLength length] at frame

theorem check_of_wholeFrame {f : Bytes} {n : Nat} (hf : WholeFrame f n) (small : n ≤ limit)
    (rest : Bytes) :
    ∃ h, check (f ++ rest) limit = .ok h ∧ h.frameLength = f.length := by
  obtain ⟨h, hd, rfl, length⟩ := decode_of_wholeFrame hf
  have decoded := decode_append hd (Awaits.not_ok h) rest
  exact ⟨h, check_eq_ok.2 ⟨decoded, small, by rw [List.length_append]; omega⟩, length⟩

theorem asks_of_decode (hd : decode stream = .error (.insufficientBytes k)) :
    1 ≤ k ∧ stream.length + k ≤ 5 ∧ ∀ x : Bytes, x.length < k →
      decode (stream ++ x) = .error (.insufficientBytes (k - x.length)) := by
  match stream with
  | [] =>
    -- the two bytes of the shortest header are asked for at once
    cases hd
    refine ⟨by decide, by decide, fun x short => ?_⟩
    match x with
    | [] | [y] => rfl
    | y :: z :: x =>
      simp only [List.length_cons] at short
      omega
  | [y] =>
    cases hd
    refine ⟨Nat.le_refl 1, by simp, fun x short => ?_⟩
    obtain rfl := List.eq_nil_of_length_eq_zero (Nat.lt_one_iff.1 short)
    rfl
  | y :: z :: b =>
    -- the size of the body goes on, and nothing tells for how long
    obtain ⟨rfl, short⟩ : k = 1 ∧ (z :: b).length < 4 := by
      refine VarInt.asks_of_decodeGroups ?_
      rw [decode_cons, VarInt.decode] at hd
      cases number : VarInt.decodeGroups 4 (z :: b) with
      | error e =>
        rw [number] at hd
        cases hd
        rfl
      | ok r =>
        rw [number] at hd
        cases hd
    refine ⟨Nat.le_refl 1, Nat.succ_le_succ short, fun x short => ?_⟩
    obtain rfl := List.eq_nil_of_length_eq_zero (Nat.lt_one_iff.1 short)
    rw [List.append_nil]
    exact hd

theorem asks_of_check (hc : check stream limit = .error (.insufficientBytes k)) :
    1 ≤ k ∧ stream.length + k ≤ limit + 5 ∧ ∀ x : Bytes, x.length < k →
      check (stream ++ x) limit = .error (.insufficientBytes (k - x.length)) := by
  rw [check_eq] at hc
  cases hd : decode stream with
  | error e =>
    rw [hd] at hc
    cases hc
    obtain ⟨pos, few, more⟩ := asks_of_decode hd
    refine ⟨pos, by omega, fun x short => ?_⟩
    rw [check_eq, more x short]
    rfl
  | ok h =>
    rw [hd] at hc
    change (if _ then _ else if _ then _ else _) = _ at hc
    split at hc
    · cases hc
    · next small =>
      split at hc
      · next short =>
        cases hc
        obtain ⟨groups, rest, -, -, few, -⟩ := spells_of_decode hd
        refine ⟨by omega, ?_, fun x less => ?_⟩
        · unfold FixedHeader.frameLength at *
          omega
        · rw [check_eq, decode_append hd (Awaits.not_ok h)]
          change (if _ then _ else if _ then _ else _) = _
          rw [if_neg small, if_pos (by rw [List.length_append]; omega), List.length_append,
            Nat.sub_add_eq]
      · cases hc

end FixedHeader

namespace Packet

theorem read_wholeFrame {f : Bytes} {n limit : Nat} (hf : WholeFrame f n) (small : n ≤ limit)
    (rest : Bytes) :
    read (f ++ rest) limit = ((read f limit).1, rest) ∧ ¬ Awaits (read f limit).1 := by
  obtain ⟨h, hc, length⟩ := FixedHeader.check_of_wholeFrame hf small []
  rw [List.append_nil] at hc
  have alone := read_of_check hc
  rw [length, List.drop_length] at alone
  have longer := read_append alone (not_awaits_ofFrame h _) rest
  rw [alone]
  exact ⟨longer, not_awaits_ofFrame h _⟩

theorem decode_eq_read (stream : Bytes) (limit : Nat) :
    decode stream limit =
      (read stream limit).1.map fun p => (p, stream.length - (read stream limit).2.length) := by
  cases hc : FixedHeader.check stream limit with
  | error e =>
    rw [read_of_check_error hc, decode, hc]
    rfl
  | ok h =>
    have whole := (FixedHeader.check_eq_ok.1 hc).2.2
    have length : stream.length - (stream.drop h.frameLength).length = h.frameLength := by
      rw [List.length_drop]
      omega
    rw [read_of_check hc, decode, hc, length]
    rfl

/-- What the reader makes of a stream, whatever the stream holds. -/
structure FramesWhole (stream : Bytes) (limit : Nat) : Prop where
  /-- A frame is taken as a whole, and what comes of it is up to its own bytes. -/
  taken : ∀ f rest n, stream = f ++ rest → WholeFrame f n → n ≤ limit →
    (∃ h, FixedHeader.check stream limit = .ok h ∧ h.frameLength = f.length) ∧
      read stream limit = ((read f limit).1, rest) ∧ ¬ Awaits (read stream limit).1
  kept : (∀ f rest n, stream = f ++ rest → WholeFrame f n → limit < n) →
    ∃ e, read stream limit = (.error e, stream)
  asks : ∀ k, (read stream limit).1 = .error (.insufficientBytes k) →
    1 ≤ k ∧ stream.length + k ≤ limit + 5 ∧ ∀ x : Bytes, x.length < k →
      read (stream ++ x) limit = (.error (.insufficientBytes (k - x.length)), stream ++ x)
  decode : decode stream limit =
    (read stream limit).1.map fun p => (p, stream.length - (read stream limit).2.length)

theorem frames_whole (stream : Bytes) (limit : Nat) : FramesWhole stream limit := by
  constructor
  case taken =>
    rintro f rest n rfl hf small
    obtain ⟨same, final⟩ := read_wholeFrame hf small rest
    exact ⟨FixedHeader.check_of_wholeFrame hf small rest, same, same ▸ final⟩
  case kept =>
    intro none
    cases hc : FixedHeader.check stream limit with
    | error e => exact ⟨e, read_of_check_error hc⟩
    | ok h =>
      obtain ⟨hd, small, whole⟩ := FixedHeader.check_eq_ok.1 hc
      have large := none _ _ _ (List.take_append_drop h.frameLength stream).symm
        (FixedHeader.wholeFrame_of_decode hd whole)
      exact absurd small (Nat.not_le.2 large)
  case asks =>
    intro k asks
    obtain ⟨hc, -⟩ := read_of_asks (Prod.ext asks rfl) rfl
    obtain ⟨pos, few, more⟩ := FixedHeader.asks_of_check hc
    exact ⟨pos, few, fun x short => read_of_check_error (more x short)⟩
  case decode => exact decode_eq_read stream limit

end Packet

end MqttClient
