import MqttClient.Proofs.Session.Identifiers

/-! What a session refuses, and that it refuses it whole. For each operation that can fail the
grounds to refuse are said once, and an operation fails on these grounds and no others. Whatever it
refuses, it has changed nothing so far but the time of the last packet received. -/

namespace MqttClient

def Request.needsConnection : Request → Bool
  | .connect _ | .disconnect _ => false
  | .publish _ | .subscribe _ | .unsubscribe _ | .pingReq => true

theorem Request.Opens.needsConnection {r : Request} (h : r.Opens) : r.needsConnection = true := by
  cases r with
  | publish | subscribe | unsubscribe => rfl
  | connect | pingReq | disconnect => exact h.elim

namespace Session

inductive Refuses (s : Session) : Request → SessionError → Prop
  | handshake {p : Connect} (hc : s.connection ≠ .connecting) :
    Refuses s (.connect p) (.invalidState s.connection)
  | offline {r : Request} (needs : r.needsConnection = true) (hc : s.connection ≠ .connected) :
    Refuses s r (.invalidState s.connection)
  | exhausted {r : Request} (hr : r.Opens) (hc : s.connection = .connected)
    (all : ∀ k : UInt16, k ≠ 0 → s.outgoing[k]? ≠ none) : Refuses s r .packetIdsExhausted
  | pinging (hc : s.connection = .connected) (awaits : s.awaitPingResp = true) :
    Refuses s .pingReq .awaitPingResp

/-- The packets that are refused: an answer to no handshake, a message before the answer, and what
only a client sends. -/
def Rejects (s : Session) : Packet → Prop
  | .connAck _ => s.connection ≠ .connecting
  | .publish _ => s.connection = .connecting
  | .connect _ | .subscribe _ | .unsubscribe _ | .pingReq => True
  | _ => False

variable {s s' : Session} {now : Time}

theorem start_eq_error_iff (h : s.IsSound) {phase : Phase} {mk : UInt16 → Packet}
    {e : SessionError} :
    s.start now phase mk = (s', .error e) ↔ s' = s ∧
      ((s.connection ≠ .connected ∧ e = .invalidState s.connection) ∨
        (s.connection = .connected ∧ e = .packetIdsExhausted ∧
          ∀ k : UInt16, k ≠ 0 → s.outgoing[k]? ≠ none)) := by
  rw [← nextPacketId_eq_error_iff h]
  by_cases hc : s.connection = .connected
  · cases given : s.nextPacketId with
    | ok k => simp [start, hc, given]
    | error err =>
      obtain rfl := nextPacketId_eq_error given
      simp [start, hc, given, eq_comm]
  · simp [start, hc, eq_comm]

theorem sendPing_eq_error_iff {e : SessionError} :
    s.sendPing = (s', .error e) ↔ s' = s ∧
      ((s.connection ≠ .connected ∧ e = .invalidState s.connection) ∨
        (s.connection = .connected ∧ e = .awaitPingResp ∧ s.awaitPingResp = true)) := by
  unfold sendPing
  split
  · next hc =>
    split
    · next awaits =>
      constructor
      · intro refused
        cases refused
        exact ⟨rfl, .inr ⟨hc, rfl, awaits⟩⟩
      · rintro ⟨rfl, ⟨offline, -⟩ | ⟨-, rfl, -⟩⟩
        · exact absurd hc offline
        · rfl
    · next idle => simp [hc, idle]
  · next hc => simp [hc, @eq_comm _ s' s, @eq_comm _ e]

theorem send_eq_error_iff (h : s.IsSound) {r : Request} {e : SessionError} :
    s.send now r = (s', .error e) ↔ s.Refuses r e ∧ s' = s := by
  constructor
  · intro refused
    obtain rfl : s' = s := send_eq_error refused
    refine ⟨?_, rfl⟩
    by_cases hr : r.Opens
    · obtain ⟨phase, mk, -, -, sent⟩ := s'.send_eq_start hr now
      rw [sent, start_eq_error_iff h] at refused
      obtain ⟨-, ⟨hc, rfl⟩ | ⟨hc, rfl, all⟩⟩ := refused
      · exact .offline hr.needsConnection hc
      · exact .exhausted hr hc all
    · cases r with
      | connect p =>
        rw [send] at refused
        split at refused
        · cases refused
        · next hc =>
          cases refused
          exact .handshake hc
      | publish p =>
        have hq : p.qos = .atMostOnce := by simpa [Request.Opens] using hr
        rw [send, sendPublish, if_pos hq] at refused
        split at refused
        · cases refused
        · next hc =>
          cases refused
          exact .offline rfl hc
      | pingReq =>
        obtain ⟨-, ⟨hc, rfl⟩ | ⟨hc, rfl, awaits⟩⟩ := sendPing_eq_error_iff.1 refused
        · exact .offline rfl hc
        · exact .pinging hc awaits
      | disconnect p => simp [send] at refused
      | subscribe | unsubscribe => exact absurd trivial hr
  · rintro ⟨grounds, rfl⟩
    cases grounds with
    | handshake hc => rw [send, if_neg hc]
    | offline needs hc =>
      cases r with
      | publish p =>
        rw [send, sendPublish]
        split
        · rfl
        · exact (start_eq_error_iff h).2 ⟨rfl, .inl ⟨hc, rfl⟩⟩
      | subscribe | unsubscribe => exact (start_eq_error_iff h).2 ⟨rfl, .inl ⟨hc, rfl⟩⟩
      | pingReq => exact sendPing_eq_error_iff.2 ⟨rfl, .inl ⟨hc, rfl⟩⟩
      | connect | disconnect => cases needs
    | exhausted hr hc all =>
      obtain ⟨phase, mk, -, -, sent⟩ := s'.send_eq_start hr now
      rw [sent]
      exact (start_eq_error_iff h).2 ⟨rfl, .inr ⟨hc, rfl, all⟩⟩
    | pinging hc awaits => exact sendPing_eq_error_iff.2 ⟨rfl, .inr ⟨hc, rfl, awaits⟩⟩

theorem connecting_eq_error_iff {e : SessionError} :
    s.connecting = (s', .error e) ↔
      s.connection ≠ .disconnected ∧ e = .invalidState s.connection ∧ s' = s := by
  unfold connecting
  split
  · next hc => simp [hc]
  · next hc => simp [hc, eq_comm, and_comm]

theorem receiveConnAck_eq_error_iff {p : ConnAck} {e : SessionError} :
    s.receiveConnAck p = (s', .error e) ↔
      s.connection ≠ .connecting ∧ e = .wrongPacket ∧ s' = s := by
  unfold receiveConnAck
  split
  · next hc => split <;> simp [hc]
  · next hc => simp [hc, eq_comm, and_comm]

theorem receivePublish_eq_error_iff {p : Publish} {e : SessionError} :
    s.receivePublish p = (s', .error e) ↔
      s.connection = .connecting ∧ e = .wrongPacket ∧ s' = s := by
  unfold receivePublish
  split
  · next hc => simp [hc, eq_comm, and_comm]
  · next hc =>
    split
    · simp [hc]
    · simp [hc]
    · dsimp only
      split <;> simp [hc]

theorem receive_eq_error_iff {packet : Packet} {e : SessionError} :
    s.receive now packet = (s', .error e) ↔
      s.Rejects packet ∧ e = .wrongPacket ∧ s' = { s with lastIncoming := now } := by
  cases packet with
  | connAck p => exact receiveConnAck_eq_error_iff
  | publish p => exact receivePublish_eq_error_iff
  | connect | subscribe | unsubscribe | pingReq => simp [receive, Rejects, eq_comm, and_comm]
  | _ => simp [receive, Rejects]

/-- A session, seen by what it refuses. Nothing else fails, and what fails leaves nothing behind. -/
structure RefusesWhole (s : Session) : Prop where
  connecting : ∀ s' e, s.connecting = (s', .error e) ↔
    s.connection ≠ .disconnected ∧ e = .invalidState s.connection ∧ s' = s
  send : ∀ now r s' e, s.send now r = (s', .error e) ↔ s.Refuses r e ∧ s' = s
  receive : ∀ now packet s' e, s.receive now packet = (s', .error e) ↔
    s.Rejects packet ∧ e = .wrongPacket ∧ s' = { s with lastIncoming := now }

theorem refuses_whole_of_arises {past : List (Session × Operation)} (arises : Arises past s) :
    RefusesWhole s := by
  constructor
  case connecting => exact fun _ _ => connecting_eq_error_iff
  case send => exact fun _ _ _ _ => send_eq_error_iff arises.traced.sound
  case receive => exact fun _ _ _ _ => receive_eq_error_iff

theorem refuses_whole_interrupted :
    let s : Session := { (new 10).run interruptedOps with lastOutgoing := 5, maxInflight := 20 }
    RefusesWhole s ∧ s.Refuses .pingReq (.invalidState .disconnected) ∧
      s.send 7 .pingReq = (s, .error (.invalidState .disconnected)) := by
  intro s
  have whole := refuses_whole_of_arises ((arises_of_run 10 interruptedOps).noted 5 20)
  have offline : s.connection = .disconnected := by decide +kernel
  have refused : s.Refuses .pingReq (.invalidState .disconnected) := by
    rw [← offline]
    exact .offline rfl (by simp [offline])
  exact ⟨whole, refused, (whole.send 7 .pingReq s _).2 ⟨refused, rfl⟩⟩

end Session

end MqttClient
