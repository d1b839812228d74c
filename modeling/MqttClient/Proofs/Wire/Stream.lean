import MqttClient.Proofs.Wire.Finality

/-! Reading packets off a stream that goes on arriving. An answer that does not ask for more bytes
stays the same when more of them arrive; one that does leaves the stream as it was. -/

namespace MqttClient

namespace VarInt

theorem decodeGroups_append {k : Nat} {b : Bytes} (h : ¬ Awaits (decodeGroups k b)) (more : Bytes) :
    decodeGroups k (b ++ more) = decodeGroups k b := by
  induction k generalizing b with
  | zero => rfl
  | succ k ih =>
    cases b with
    | nil => exact absurd (Awaits.error_iff.2 rfl) h
    | cons x b =>
      rw [List.cons_append, decodeGroups, decodeGroups]
      split
      · rfl
      · next next =>
        rw [decodeGroups, if_neg next] at h
        rw [ih fun no => h (no.bind _)]

end VarInt

namespace FixedHeader

variable {stream : Bytes} {limit : Nat} {h : FixedHeader}

theorem decode_cons (x y : UInt8) (b : Bytes) :
    decode (x :: y :: b) = VarInt.decode (y :: b) >>= fun r => .ok ⟨x, r.1, r.2⟩ := rfl

theorem decode_append {r : Except WireError FixedHeader} (hd : decode stream = r)
    (hr : ¬ Awaits r) (more : Bytes) : decode (stream ++ more) = r := by
  subst hd
  match stream with
  | [] | [x] => exact absurd (Awaits.error_iff.2 rfl) hr
  | x :: y :: b =>
    have number := VarInt.decodeGroups_append (fun no => hr (no.bind _)) more
    rw [List.cons_append, List.cons_append, decode_cons, decode_cons, ← List.cons_append,
      VarInt.decode, VarInt.decode, number]

theorem decode_of_spells (firstByte : UInt8) {groups : Bytes} {n : Nat} (few : groups.length ≤ 4)
    (size : VarInt.Spells groups n) (rest : Bytes) :
    decode (firstByte :: (groups ++ rest)) = .ok ⟨firstByte, groups.length, n⟩ := by
  have number := size.decodeGroups_append few rest
  cases groups with
  | nil => cases size
  | cons b groups =>
    rw [List.cons_append, decode_cons, ← List.cons_append, VarInt.decode, number]
    rfl

theorem spells_of_decode (hd : decode stream = .ok h) :
    ∃ groups rest, stream = h.firstByte :: (groups ++ rest) ∧ groups.length = h.lengthBytes ∧
      h.lengthBytes ≤ 4 ∧ VarInt.Spells groups h.bodySize := by
  match stream with
  | [] | [x] => cases hd
  | x :: y :: b =>
    obtain ⟨⟨count, size⟩, number, e⟩ := bind_eq_ok.1 hd
    cases e
    obtain ⟨groups, rest, split, length, few, spells⟩ := VarInt.spells_of_decodeGroups number
    exact ⟨groups, rest, by rw [split], length, few, spells⟩

theorem take_frameLength {groups : Bytes} (length : groups.length = h.lengthBytes) (rest : Bytes) :
    (h.firstByte :: (groups ++ rest)).take h.frameLength =
      h.firstByte :: (groups ++ rest.take h.bodySize) := by
  rw [FixedHeader.frameLength, Nat.add_assoc, Nat.add_comm, List.take_succ_cons, ← length,
    List.take_length_add_append]

theorem decode_take (hd : decode stream = .ok h) :
    decode (stream.take h.frameLength) = .ok h := by
  obtain ⟨groups, rest, rfl, length, few, size⟩ := spells_of_decode hd
  rw [take_frameLength length, decode_of_spells h.firstByte (length ▸ few) size, length]

theorem check_eq (stream : Bytes) (limit : Nat) :
    check stream limit = decode stream >>= fun h =>
      if h.bodySize > limit then .error (.payloadSizeLimitExceeded h.bodySize limit)
      else if stream.length < h.frameLength then
        .error (.insufficientBytes (h.frameLength - stream.length))
      else .ok h := by
  rw [check]
  congr 1

theorem check_eq_ok : check stream limit = .ok h ↔
    decode stream = .ok h ∧ h.bodySize ≤ limit ∧ h.frameLength ≤ stream.length := by
  rw [check_eq, bind_eq_ok]
  grind

theorem check_append {r : Except WireError FixedHeader} (hc : check stream limit = r)
    (hr : ¬ Awaits r) (more : Bytes) : check (stream ++ more) limit = r := by
  subst hc
  rw [check_eq] at hr
  rw [check_eq, check_eq, decode_append rfl fun no => hr (no.bind _)]
  cases hd : decode stream with
  | error e => rfl
  | ok h =>
    change (if _ then _ else if _ then _ else _) = (if _ then _ else if _ then _ else _)
    rw [hd] at hr
    split
    · rfl
    · next small =>
      have whole : ¬ stream.length < h.frameLength := by
        intro short
        refine hr ?_
        change Awaits (if _ then _ else if _ then _ else _)
        rw [if_neg small, if_pos short]
        exact Awaits.error_iff.2 rfl
      rw [if_neg whole, if_neg (by rw [List.length_append]; omega)]

end FixedHeader

namespace Packet

variable {stream rest : Bytes} {limit : Nat} {p : Packet} {e : WireError}

theorem read_of_check {h : FixedHeader} (hc : FixedHeader.check stream limit = .ok h) :
    read stream limit =
      (ofFrame h ((stream.take h.frameLength).drop (1 + h.lengthBytes)),
        stream.drop h.frameLength) := by
  rw [read, hc]
  dsimp only
  rw [List.splitAt_eq]

theorem read_of_check_error (hc : FixedHeader.check stream limit = .error e) :
    read stream limit = (.error e, stream) := by
  rw [read, hc]

theorem read_of_asks (h : read stream limit = (.error e, rest)) (asks : e.asksForMore) :
    FixedHeader.check stream limit = .error e ∧ rest = stream := by
  cases hc : FixedHeader.check stream limit with
  | error e' =>
    rw [read_of_check_error hc] at h
    cases h
    exact ⟨rfl, rfl⟩
  | ok header =>
    rw [read_of_check hc] at h
    have refused := congrArg Prod.fst h
    exact absurd ⟨e, refused, asks⟩ (not_awaits_ofFrame header _)

theorem read_append {r : Except WireError Packet} (h : read stream limit = (r, rest))
    (hr : ¬ Awaits r) (more : Bytes) : read (stream ++ more) limit = (r, rest ++ more) := by
  cases hc : FixedHeader.check stream limit with
  | error e =>
    rw [read_of_check_error hc] at h
    cases h
    have final : ¬ Awaits (.error e : Except WireError FixedHeader) :=
      fun asks => hr (Awaits.error_iff.2 (Awaits.error_iff.1 asks))
    exact read_of_check_error (FixedHeader.check_append hc final more)
  | ok header =>
    have whole := (FixedHeader.check_eq_ok.1 hc).2.2
    rw [read_of_check hc] at h
    rw [read_of_check (FixedHeader.check_append hc (Awaits.not_ok header) more),
      List.take_append_of_le_length whole, List.drop_append_of_le_length whole]
    cases h
    rfl

theorem read_eq_ok (h : read stream limit = (.ok p, rest)) :
    ∃ header, FixedHeader.decode stream = .ok header ∧ header.frameLength ≤ stream.length ∧
      rest = stream.drop header.frameLength := by
  cases hc : FixedHeader.check stream limit with
  | error e =>
    rw [read, hc] at h
    cases h
  | ok header =>
    rw [read_of_check hc] at h
    obtain ⟨hd, -, whole⟩ := FixedHeader.check_eq_ok.1 hc
    exact ⟨header, hd, whole, (congrArg Prod.snd h).symm⟩

theorem length_rest_lt (h : read stream limit = (.ok p, rest)) : rest.length < stream.length := by
  obtain ⟨header, -, whole, rfl⟩ := read_eq_ok h
  rw [List.length_drop]
  unfold FixedHeader.frameLength at *
  omega

/-- The packets of a stream from the first to the last; the claim is carried from what is left
behind a packet to the stream that the packet heads. -/
theorem read_induction (limit : Nat) {motive : Bytes → Prop}
    (stop : ∀ stream rest e, read stream limit = (.error e, rest) → motive stream)
    (next : ∀ stream rest p, read stream limit = (.ok p, rest) → motive rest → motive stream)
    (stream : Bytes) : motive stream := by
  rcases hr : read stream limit with ⟨e | p, rest⟩
  · exact stop stream rest e hr
  · exact next stream rest p hr (read_induction limit stop next rest)
termination_by stream.length
decreasing_by exact length_rest_lt hr

theorem readLoop_succ_ok (h : read stream limit = (.ok p, rest)) (fuel : Nat)
    (acc : List Packet) :
    readLoop limit (fuel + 1) acc stream = readLoop limit fuel (p :: acc) rest := by
  rw [readLoop, h]

theorem readLoop_succ_error (h : read stream limit = (.error e, rest)) (fuel : Nat)
    (acc : List Packet) : readLoop limit (fuel + 1) acc stream = (acc.reverse, e, rest) := by
  rw [readLoop, h]

theorem readLoop_eq (limit : Nat) (stream : Bytes) : ∀ {fuel : Nat} (acc : List Packet),
    stream.length < fuel → readLoop limit fuel acc stream =
      (acc.reverse ++ (readAll stream limit).1, (readAll stream limit).2) := by
  induction stream using read_induction limit with
  | stop stream rest e h =>
    intro fuel acc hf
    obtain ⟨fuel, rfl⟩ := Nat.exists_eq_add_of_lt hf
    rw [readAll, readLoop_succ_error h, readLoop_succ_error h]
    simp
  | next stream rest p h ih =>
    intro fuel acc hf
    -- a packet takes a byte at least, so that the fuel lasts
    have shorter := length_rest_lt h
    obtain ⟨fuel, rfl⟩ : ∃ n, fuel = n + 1 := ⟨fuel - 1, by omega⟩
    rw [readAll, readLoop_succ_ok h, readLoop_succ_ok h, ih _ (by omega), ih _ shorter]
    simp

theorem readAll_ok (h : read stream limit = (.ok p, rest)) :
    readAll stream limit = (p :: (readAll rest limit).1, (readAll rest limit).2) := by
  rw [readAll, readLoop_succ_ok h, readLoop_eq limit rest _ (length_rest_lt h)]
  rfl

theorem readAll_error (h : read stream limit = (.error e, rest)) :
    readAll stream limit = ([], e, rest) := by
  rw [readAll, readLoop_succ_error h]
  rfl

variable {packets : List Packet} {buffer : Bytes}

theorem readAll_append (h : readAll stream limit = (packets, e, buffer)) (asks : e.asksForMore)
    (more : Bytes) :
    readAll (stream ++ more) limit =
      (packets ++ (readAll (buffer ++ more) limit).1, (readAll (buffer ++ more) limit).2) := by
  induction stream using read_induction limit generalizing packets with
  | stop stream rest e' hr =>
    rw [readAll_error hr] at h
    cases h
    cases (read_of_asks hr asks).2
    rfl
  | next stream rest p hr ih =>
    have longer := read_append hr (Awaits.not_ok p) more
    rcases hs : readAll rest limit with ⟨later, e', buffer'⟩
    rw [readAll_ok hr, hs] at h
    cases h
    rw [readAll_ok longer, ih hs]
    rfl

theorem readAll_append_error (h : readAll stream limit = (packets, e, buffer))
    (final : e.asksForMore = false) (more : Bytes) :
    readAll (stream ++ more) limit = (packets, e, buffer ++ more) := by
  induction stream using read_induction limit generalizing packets with
  | stop stream rest e' hr =>
    rw [readAll_error hr] at h
    cases h
    exact readAll_error (read_append hr (Awaits.not_error final) more)
  | next stream rest p hr ih =>
    have longer := read_append hr (Awaits.not_ok p) more
    rcases hs : readAll rest limit with ⟨later, e', buffer'⟩
    rw [readAll_ok hr, hs] at h
    cases h
    rw [readAll_ok longer, ih hs]

theorem readAll_rest (h : readAll stream limit = (packets, e, buffer)) (asks : e.asksForMore) :
    readAll buffer limit = ([], e, buffer) := by
  have again := readAll_append h asks []
  rw [List.append_nil, List.append_nil, h] at again
  have none := List.self_eq_append_right.1 (congrArg Prod.fst again)
  exact Prod.ext none (congrArg Prod.snd again).symm

end Packet

end MqttClient
