import MqttClient.Proofs.Wire.RoundTrip
import MqttClient.Proofs.Wire.Chunks

/-! What one end of a connection writes, the other end reads. A packet goes out as a whole or not at
all, from a buffer that keeps nothing of the packets before it; and the packets that went out come
back one by one, wherever the stream is cut. -/

namespace MqttClient

namespace Writer

variable (w : Writer) {p : Packet} {b : Bytes}

theorem send_of_error {e : WireError} (h : p.encode = .error e) :
    w.send p = (w.clear, .error (.encoding e)) := by
  simp only [send, clear, Packet.write, h]

theorem send_of_long (h : p.encode = .ok b) (long : w.link.maxOutgoing < p.size) :
    w.send p = (w.clear,
      .error (.encoding (.outgoingPacketTooLarge p.size w.link.maxOutgoing))) := by
  simp only [send, clear, Packet.write, h, if_pos long]

theorem send_of_fits (h : p.encode = .ok b) (fits : p.size ≤ w.link.maxOutgoing) :
    w.send p = w.link.pass.elim ({ w with buffer := b }, .error .brokenPipe)
      fun link => ({ w with link }.clear, .ok b) := by
  simp only [send, clear, Packet.write, h, if_neg (Nat.not_lt.2 fits), List.nil_append]
  cases w.link.pass <;> rfl

theorem send_link (p : Packet) : ((w.send p).1.link, (w.send p).2) = w.link.send p := rfl

end Writer

namespace Link

variable {l : Link} {p : Packet}

/-- The packet can be written, as long as the other end is there. -/
def Takes (l : Link) (p : Packet) : Prop :=
  (∃ bytes, p.encode = .ok bytes) ∧ p.size ≤ l.maxOutgoing

theorem Takes.congr {l' : Link} (h : l.Takes p) (same : l'.maxOutgoing = l.maxOutgoing) :
    l'.Takes p :=
  ⟨h.1, same ▸ h.2⟩

theorem takes_iff : l.Takes p ↔ ∃ b, p.encode = .ok b ∧ b.length ≤ l.maxOutgoing := by
  constructor
  · rintro ⟨⟨b, written⟩, le⟩
    exact ⟨b, written, Nat.le_trans (Nat.le_of_eq (Packet.length_encode written)) le⟩
  · rintro ⟨b, written, le⟩
    exact ⟨⟨b, written⟩, Nat.le_trans (Nat.le_of_eq (Packet.length_encode written).symm) le⟩

theorem send_cases (l : Link) (p : Packet) :
    (l.Takes p ∧ l.room ≠ some 0 ∧ ∃ bytes, p.encode = .ok bytes ∧
      l.send p = ({ l with room := l.room.map (· - 1) }, .ok bytes)) ∨
    (¬ l.Takes p ∧ ∃ err, l.send p = (l, .error (.encoding err))) ∨
    (l.Takes p ∧ l.room = some 0 ∧ l.send p = (l, .error .brokenPipe)) := by
  cases he : p.encode with
  | error err =>
    refine .inr (.inl ⟨?_, err, by rw [send, Writer.send_of_error _ he, Writer.clear]⟩)
    rintro ⟨⟨bytes, hb⟩, -⟩
    cases he.symm.trans hb
  | ok bytes =>
    by_cases fits : p.size ≤ l.maxOutgoing
    · have takes : l.Takes p := ⟨⟨bytes, he⟩, fits⟩
      rw [send, Writer.send_of_fits { link := l } he fits]
      obtain ⟨maxOutgoing, _ | _ | room⟩ := l
      · exact .inl ⟨takes, by simp, bytes, rfl, rfl⟩
      · exact .inr (.inr ⟨takes, rfl, rfl⟩)
      · exact .inl ⟨takes, by simp, bytes, rfl, rfl⟩
    · refine .inr (.inl ⟨fun takes => fits takes.2,
        .outgoingPacketTooLarge p.size l.maxOutgoing, ?_⟩)
      rw [send, Writer.send_of_long { link := l } he (Nat.lt_of_not_le fits), Writer.clear]

end Link

namespace Writer

/-- A packet went out as a whole if it can be written within the limit, and else not at all. -/
inductive Answers (limit : Nat) (p : Packet) : Except TransportError Bytes → Prop
  | out {b : Bytes} (written : p.encode = .ok b) (fits : b.length ≤ limit) : Answers limit p (.ok b)
  | refused {e : TransportError} (unfit : ¬ ∃ b, p.encode = .ok b ∧ b.length ≤ limit) :
    Answers limit p (.error e)

theorem Answers.isOk_iff {limit : Nat} {p : Packet} {answer : Except TransportError Bytes}
    (h : Answers limit p answer) :
    answer.isOk = true ↔ ∃ b, p.encode = .ok b ∧ b.length ≤ limit := by
  cases h with
  | out written fits => exact ⟨fun _ => ⟨_, written, fits⟩, fun _ => rfl⟩
  | refused unfit => exact ⟨nofun, fun fit => absurd fit unfit⟩

def taken (log : List (Packet × Except TransportError Bytes)) : List Packet :=
  (log.filter (·.2.isOk)).map (·.1)

def wire (log : List (Packet × Except TransportError Bytes)) : Bytes :=
  log.flatMap (·.2.toOption.getD [])

theorem Answers.frames {limit : Nat} {log : List (Packet × Except TransportError Bytes)}
    (h : ∀ x ∈ log, Answers limit x.1 x.2) :
    ∃ frames, List.Forall₂ (fun p b => p.encode = .ok b ∧ b.length ≤ limit) (taken log) frames ∧
      wire log = frames.flatten := by
  induction log with
  | nil => exact ⟨[], .nil, rfl⟩
  | cons x log ih =>
    obtain ⟨p, answer⟩ := x
    rw [List.forall_mem_cons] at h
    obtain ⟨frames, each, same⟩ := ih h.2
    cases h.1 with
    | @out b written fits => exact ⟨b :: frames, .cons ⟨written, fits⟩ each, congrArg (b ++ ·) same⟩
    | refused => exact ⟨frames, each, same⟩

end Writer

namespace Packet

theorem readAll_frames {limit : Nat} {packets : List Packet} {frames : List Bytes}
    (h : List.Forall₂ (fun p b => p.encode = .ok b ∧ b.length ≤ limit) packets frames)
    (plain : ∀ p ∈ packets, Plain p.texts)
    (codes : ∀ p ∈ packets, ∀ q, p = subAck q → q.returnCodes ≠ []) :
    readAll frames.flatten limit = (packets, .insufficientBytes 2, []) := by
  induction h with
  | nil => rfl
  | @cons p b packets frames first _ ih =>
    rw [List.forall_mem_cons] at plain codes
    obtain ⟨written, fits⟩ := first
    obtain ⟨r, yields, reads⟩ := read_encode written
    have same : r = .ok p := (yields.accepts plain.1).trans (outcome_eq_ok codes.1)
    have small : p.bodySize ≤ limit := by
      rw [length_encode written] at fits
      exact Nat.le_of_add_left_le fits
    have read := (reads frames.flatten limit small).2
    rw [same] at read
    rw [List.flatten_cons, readAll_ok read, ih plain.2 codes.2]

end Packet

namespace Writer

variable {w : Writer}

theorem answers_send (there : w.link.room = none) (p : Packet) :
    (w.send p).1.link = w.link ∧ Answers w.link.maxOutgoing p (w.send p).2 := by
  have kept : ({ w.link with room := w.link.room.map (· - 1) } : Link) = w.link := by
    rw [there, Option.map_none, ← there]
  have same := w.send_link p
  obtain ⟨takes, -, b, written, he⟩ | ⟨unfit, err, he⟩ | ⟨-, gone, -⟩ := w.link.send_cases p
  · rw [he, kept, Prod.mk.injEq] at same
    obtain ⟨b', written', fits⟩ := Link.takes_iff.1 takes
    cases written.symm.trans written'
    rw [same.2]
    exact ⟨same.1, .out written fits⟩
  · rw [he, Prod.mk.injEq] at same
    rw [same.2]
    exact ⟨same.1, .refused fun fit => unfit (Link.takes_iff.2 fit)⟩
  · rw [there] at gone
    cases gone

def sendAll (w : Writer) : List Packet → List (Packet × Except TransportError Bytes)
  | [] => []
  | p :: ps =>
    let (next, answer) := w.send p
    (p, answer) :: next.sendAll ps

theorem sendAll_cons (w : Writer) (p : Packet) (ps : List Packet) :
    w.sendAll (p :: ps) = (p, (w.send p).2) :: (w.send p).1.sendAll ps := rfl

theorem map_fst_sendAll (w : Writer) (ps : List Packet) : (w.sendAll ps).map (·.1) = ps := by
  induction ps generalizing w with
  | nil => rfl
  | cons p ps ih => rw [sendAll_cons, List.map_cons, ih]

theorem answers_sendAll (there : w.link.room = none) (ps : List Packet) :
    ∀ x ∈ w.sendAll ps, Answers w.link.maxOutgoing x.1 x.2 := by
  induction ps generalizing w with
  | nil => exact List.forall_mem_nil _
  | cons p ps ih =>
    obtain ⟨same, first⟩ := answers_send there p
    have later := @ih (w.send p).1 (by rw [same, there])
    rw [same] at later
    rw [sendAll_cons]
    exact List.forall_mem_cons.2 ⟨first, later⟩

/-- The transport between two ends is transparent. The packets that go out are those that can be
written within the limit, nothing else stands on the wire, and the other end, wherever what arrives
is cut, gets these packets and then the orderly end of the stream. -/
theorem received_of_sendAll (there : w.link.room = none) (ps : List Packet) :
    let log := w.sendAll ps
    log.map (·.1) = ps ∧
      (∀ x ∈ log,
        x.2.isOk = true ↔ ∃ b, x.1.encode = .ok b ∧ b.length ≤ w.link.maxOutgoing) ∧
      (∃ frames, (taken log).mapM Packet.encode = .ok frames ∧ wire log = frames.flatten) ∧
      ∀ limit, w.link.maxOutgoing ≤ limit →
        (∀ p ∈ taken log, (∀ s ∈ p.texts, '\x00' ∉ s.toList) ∧
          ∀ q, p = .subAck q → q.returnCodes ≠ []) →
        ∀ pieces : List Bytes, pieces.flatten = wire log →
          let (reader, results) := ({ limit } : FrameReader).receiveAll pieces
          results = (taken log).map .ok ∧ reader.finish.2 = some .connectionClosed := by
  intro log
  have answers := answers_sendAll there ps
  obtain ⟨frames, each, same⟩ := Answers.frames answers
  refine ⟨map_fst_sendAll w ps, fun x hx => (answers x hx).isOk_iff, ⟨frames, ?_, same⟩, ?_⟩
  · exact mapM_eq_ok.2 (each.imp fun _ _ h => h.1)
  · intro limit roomy readable pieces cut
    have read := Packet.readAll_frames (each.imp fun _ _ h => ⟨h.1, Nat.le_trans h.2 roomy⟩)
      (fun p hp => (readable p hp).1) (fun p hp => (readable p hp).2)
    rw [← same, ← cut] at read
    obtain ⟨results, reader⟩ :=
      FrameReader.receiveAll_eq (FrameReader.waiting_start limit) pieces read
    dsimp only
    rw [results, reader rfl]
    exact ⟨List.append_nil _, rfl⟩

theorem received_two_of_four :
    let w : Writer := { link := { maxOutgoing := 6 }, buffer := [1, 2, 3] }
    let ack := Packet.pubAck { packetId := 7, reason := .success }
    let long := Packet.publish { qos := .atMostOnce, topic := "a", payload := [1, 2, 3] }
    let unnumbered := Packet.pubAck { packetId := 0, reason := .success }
    let log := w.sendAll [ack, long, unnumbered, .pingReq]
    w.link.room = none ∧ taken log = [ack, .pingReq] ∧ wire log = [64, 2, 0, 7, 192, 0] ∧
      (({ limit := 6 } : FrameReader).receiveAll [[64], [2, 0], [7, 192], [0]]).2 =
        [.ok ack, .ok .pingReq] := by
  intro w ack long unnumbered log
  have there : w.link.room = none := rfl
  have out : taken log = [ack, .pingReq] := rfl
  have bytes : wire log = [64, 2, 0, 7, 192, 0] := by
    unfold log w ack long unnumbered
    rfl
  obtain ⟨-, -, -, received⟩ := received_of_sendAll there [ack, long, unnumbered, .pingReq]
  have readable : ∀ p ∈ taken log, (∀ s ∈ p.texts, '\x00' ∉ s.toList) ∧
      ∀ q, p = .subAck q → q.returnCodes ≠ [] := by
    rw [out]
    simp [ack, Packet.texts, Ack.texts, Properties.texts]
  have cut : [[64], [2, 0], [7, 192], [0]].flatten = wire log := bytes.symm
  have results := (received 6 (Nat.le_refl 6) readable _ cut).1
  refine ⟨there, out, bytes, results.trans ?_⟩
  change (taken log).map _ = _
  rw [out]
  rfl

end Writer

end MqttClient
