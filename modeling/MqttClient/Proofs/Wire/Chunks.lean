import MqttClient.Link
import MqttClient.Proofs.Wire.Stream

/-! The reading end of a connection gets the stream in pieces, cut anywhere. What it gives does not
depend on the cuts, and how it ends tells whether the stream broke off inside a frame. -/

namespace MqttClient

/-- A header, and as many bytes behind it as it announces. -/
def IsFrame (b : Bytes) : Prop := ∃ h, FixedHeader.decode b = .ok h ∧ b.length = h.frameLength

def Framed (b : Bytes) : Prop :=
  ∃ frames : List Bytes, (∀ f ∈ frames, IsFrame f) ∧ frames.flatten = b

theorem isFrame_take {b : Bytes} {h : FixedHeader} (hd : FixedHeader.decode b = .ok h)
    (whole : h.frameLength ≤ b.length) : IsFrame (b.take h.frameLength) :=
  ⟨h, FixedHeader.decode_take hd, List.length_take_of_le whole⟩

namespace Packet

variable {stream buffer : Bytes} {limit : Nat} {packets : List Packet} {e : WireError}

theorem read_frame {f more : Bytes} (hf : IsFrame f)
    (h : readAll (f ++ more) limit = (packets, e, buffer)) (asks : e.asksForMore) :
    ∃ p, read (f ++ more) limit = (.ok p, more) := by
  obtain ⟨header, hd, length⟩ := hf
  have decoded := FixedHeader.decode_append hd (Awaits.not_ok header) more
  rcases hr : read (f ++ more) limit with ⟨e' | p, rest⟩
  · rw [readAll_error hr] at h
    cases h
    have waits := (read_of_asks hr asks).1
    have whole : ¬ (f ++ more).length < header.frameLength := by
      rw [List.length_append]
      omega
    rw [FixedHeader.check_eq, decoded] at waits
    change (if _ then _ else if _ then _ else _) = _ at waits
    rw [if_neg whole] at waits
    split at waits <;> cases waits
    cases asks
  · obtain ⟨header', hd', -, rfl⟩ := read_eq_ok hr
    rw [decoded] at hd'
    cases hd'
    rw [← length, List.drop_left]
    exact ⟨p, rfl⟩

theorem framed_append_rest (h : readAll stream limit = (packets, e, buffer))
    (asks : e.asksForMore) :
    ∃ frames : List Bytes, (∀ f ∈ frames, IsFrame f) ∧ frames.flatten ++ buffer = stream := by
  induction stream using read_induction limit generalizing packets with
  | stop stream rest e' hr =>
    rw [readAll_error hr] at h
    cases h
    exact ⟨[], nofun, (read_of_asks hr asks).2⟩
  | next stream rest p hr ih =>
    rcases hs : readAll rest limit with ⟨later, e', buffer'⟩
    rw [readAll_ok hr, hs] at h
    cases h
    obtain ⟨frames, each, same⟩ := ih hs
    obtain ⟨header, hd, whole, rfl⟩ := read_eq_ok hr
    refine ⟨stream.take header.frameLength :: frames, ?_, ?_⟩
    · exact List.forall_mem_cons.2 ⟨isFrame_take hd whole, each⟩
    · rw [List.flatten_cons, List.append_assoc, same, List.take_append_drop]

theorem rest_eq_nil_iff (h : readAll stream limit = (packets, e, buffer)) (asks : e.asksForMore) :
    buffer = [] ↔ Framed stream := by
  constructor
  · rintro rfl
    obtain ⟨frames, each, same⟩ := framed_append_rest h asks
    exact ⟨frames, each, by simpa using same⟩
  · rintro ⟨frames, each, rfl⟩
    induction frames generalizing packets with
    | nil =>
      cases h
      rfl
    | cons f frames ih =>
      rw [List.forall_mem_cons] at each
      rw [List.flatten_cons] at h
      obtain ⟨p, hr⟩ := read_frame each.1 h asks
      rcases hs : readAll frames.flatten limit with ⟨later, e', buffer'⟩
      rw [readAll_ok hr, hs] at h
      cases h
      exact ih each.2 hs

end Packet

namespace FrameReader

def receiveAll (r : FrameReader) : List Bytes → FrameReader × List (Except TransportError Packet)
  | [] => (r, [])
  | piece :: pieces =>
    let (next, packets, error) := r.receive piece
    let (last, later) := next.receiveAll pieces
    (last, packets.map .ok ++ error.toList.map .error ++ later)

/-- What reading up to an error gives; asking for more is none. -/
def resultsOf (packets : List Packet) (stopped : WireError) :
    List (Except TransportError Packet) :=
  packets.map .ok ++ if stopped.asksForMore then [] else [.error (.malformedPacket stopped)]

/-- The reader has not failed, and there is no packet in its buffer. -/
structure Waiting (r : FrameReader) : Prop where
  not_failed : r.failed = false
  asks : ∃ e, Packet.readAll r.buffer r.limit = ([], e, r.buffer) ∧ e.asksForMore

theorem waiting_start (limit : Nat) : Waiting { limit } := ⟨rfl, _, rfl, rfl⟩

variable {r : FrameReader} {packets : List Packet} {stopped : WireError} {buffer : Bytes}

theorem receive_eq (hr : r.failed = false) {piece : Bytes}
    (h : Packet.readAll (r.buffer ++ piece) r.limit = (packets, stopped, buffer)) :
    r.receive piece =
      if stopped.asksForMore then ({ r with buffer }, packets, none)
      else ({ r with buffer, failed := true }, packets, some (.malformedPacket stopped)) := by
  rw [receive, if_neg (by simp [hr]), h]
  cases stopped <;> rfl

theorem receiveAll_of_failed (hr : r.failed = true) (pieces : List Bytes) :
    r.receiveAll pieces = (r, []) := by
  induction pieces with
  | nil => rfl
  | cons piece pieces ih =>
    rw [receiveAll, receive, if_pos hr]
    simp [ih]

theorem receiveAll_eq (hr : Waiting r) (pieces : List Bytes)
    (h : Packet.readAll (r.buffer ++ pieces.flatten) r.limit = (packets, stopped, buffer)) :
    (r.receiveAll pieces).2 = resultsOf packets stopped ∧
      (stopped.asksForMore → (r.receiveAll pieces).1 = { r with buffer }) := by
  -- In front of each piece the reader waits, or has failed for good.
  induction pieces generalizing r packets with
  | nil =>
    obtain ⟨e, none, asks⟩ := hr.asks
    rw [List.flatten_nil, List.append_nil, none] at h
    cases h
    rw [resultsOf, if_pos asks]
    exact ⟨rfl, fun _ => rfl⟩
  | cons piece pieces ih =>
    rcases hp : Packet.readAll (r.buffer ++ piece) r.limit with ⟨first, e, rest⟩
    have received := receive_eq hr.not_failed hp
    rw [List.flatten_cons, ← List.append_assoc] at h
    rw [receiveAll]
    cases asks : e.asksForMore with
    | true =>
      rw [if_pos asks] at received
      rw [Packet.readAll_append hp asks] at h
      rcases hs : Packet.readAll (rest ++ pieces.flatten) r.limit with ⟨later, e', last⟩
      rw [hs] at h
      cases h
      have waits : Waiting { r with buffer := rest } :=
        ⟨hr.not_failed, e, Packet.readAll_rest hp asks, asks⟩
      obtain ⟨results, reader⟩ := ih waits hs
      rw [received]
      dsimp only
      rw [results]
      exact ⟨by simp [resultsOf], reader⟩
    | false =>
      rw [asks, if_neg nofun] at received
      rw [Packet.readAll_append_error hp asks] at h
      cases h
      rw [received]
      dsimp only
      rw [receiveAll_of_failed rfl, resultsOf, asks]
      exact ⟨by simp, nofun⟩

/-- The cuts do not show. When no bytes come that are refused, the end of the stream is taken for an
orderly one exactly if no frame is broken off. -/
theorem receiveAll_of_pieces (limit : Nat) (pieces : List Bytes) :
    let start : FrameReader := { limit }
    let results := (start.receiveAll pieces).2
    let finished := (start.receiveAll pieces).1.finish.2
    results = (start.receiveAll [pieces.flatten]).2 ∧
      ((∀ e, .error e ∉ results) →
        (Framed pieces.flatten ∧ finished = some .connectionClosed) ∨
        (¬ Framed pieces.flatten ∧ finished = some .cutShort)) := by
  intro start results finished
  rcases h : Packet.readAll pieces.flatten limit with ⟨packets, stopped, buffer⟩
  have inPieces := receiveAll_eq (waiting_start limit) pieces h
  have atOnce := receiveAll_eq (waiting_start limit) [pieces.flatten] (by simpa using h)
  refine ⟨inPieces.1.trans atOnce.1.symm, fun fine => ?_⟩
  have asks : stopped.asksForMore := by
    by_contra final
    refine fine (.malformedPacket stopped) ?_
    unfold results start
    rw [inPieces.1, resultsOf, if_neg final]
    simp
  have left : buffer = [] ↔ Framed pieces.flatten := Packet.rest_eq_nil_iff h asks
  have ended : finished = some (if buffer.isEmpty then .connectionClosed else .cutShort) := by
    unfold finished start
    rw [inPieces.2 asks]
    rfl
  rw [ended, ← left]
  cases buffer with
  | nil => exact .inl ⟨rfl, rfl⟩
  | cons x b => exact .inr ⟨List.cons_ne_nil x b, rfl⟩

end FrameReader

end MqttClient
