import MqttClient.Proofs.Session.Inbound

/-! A session that waits for the broker to accept the connection. Messages, and packets that no
broker sends, are refused there. Responses are not: they are handled as on a connection that was
accepted, so a transaction that a lost connection left open may end before the next handshake is
complete. A response that nothing awaits has no effect. -/

namespace MqttClient

def Packet.isHandshake : Packet → Bool
  | .connAck _ | .disconnect _ => true
  | _ => false

/-- The packet goes on with an exchange that a connection has seen the beginning of. -/
def Packet.isResponse : Packet → Bool
  | .pubAck _ | .pubRec _ | .pubRel _ | .pubComp _ | .subAck _ | .unsubAck _ | .pingResp => true
  | _ => false

namespace Session

/-- The session has an open exchange that the packet goes on with. A ping is taken as open at any
time. -/
def Awaits (s : Session) : Packet → Prop
  | .pubAck a => ∃ t, s.outgoing[a.packetId]? = some t ∧ t.phase = .sent ∧
      t.isPublish .atLeastOnce = true
  | .pubRec a => ∃ t, s.outgoing[a.packetId]? = some t ∧ t.isPublish .exactlyOnce = true
  | .pubRel a => s.received.contains a.packetId = true
  | .pubComp a => ∃ t, s.outgoing[a.packetId]? = some t ∧ t.phase = .released
  | .subAck p => ∃ t, s.outgoing[p.packetId]? = some t ∧ t.phase = .subscribing
  | .unsubAck p => ∃ t, s.outgoing[p.packetId]? = some t ∧ t.phase = .unsubscribing
  | .pingResp => True
  | _ => False

variable {s : Session} {now : Time} {packet : Packet}

theorem complete_with_connection (s : Session) (c : ConnectionState) (k : UInt16)
    (fits : Transaction → Bool) (e : Event) :
    ({ s with connection := c } : Session).complete k fits e =
      { s.complete k fits e with connection := c } := by
  unfold complete transaction?
  dsimp only
  cases s.outgoing[k]? with
  | none => rfl
  | some t => cases h : fits t <;> simp only [h] <;> rfl

theorem receivePubRec_with_connection (s : Session) (c : ConnectionState) (now : Time)
    (a : Ack PublishReason) :
    ({ s with connection := c } : Session).receivePubRec now a =
      ({ (s.receivePubRec now a).1 with connection := c }, (s.receivePubRec now a).2) := by
  unfold receivePubRec transaction?
  dsimp only
  cases s.outgoing[a.packetId]? with
  | none => rfl
  | some t =>
    cases hq : t.isPublish .exactlyOnce with
    | false => simp [hq]
    | true =>
      simp only [hq, if_true]
      split <;> rfl

theorem receivePubRel_with_connection (s : Session) (c : ConnectionState)
    (a : Ack ReleaseReason) :
    ({ s with connection := c } : Session).receivePubRel a =
      ({ (s.receivePubRel a).1 with connection := c }, (s.receivePubRel a).2) := by
  unfold receivePubRel
  dsimp only
  split <;> rfl

theorem receive_with_connection (hp : packet.isResponse = true) (s : Session)
    (c : ConnectionState) (now : Time) :
    ({ s with connection := c } : Session).receive now packet =
      ({ (s.receive now packet).1 with connection := c }, (s.receive now packet).2) := by
  let arrived : Session := { s with lastIncoming := now }
  have completed : ∀ (k : UInt16) (fits : Transaction → Bool) (e : Event),
      (({ arrived with connection := c } : Session).complete k fits e,
        (Except.ok none : Except SessionError (Option Packet))) =
      ({ arrived.complete k fits e with connection := c }, .ok none) := by
    intro k fits e
    rw [complete_with_connection]
  cases packet with
  | pubAck a => exact completed _ _ _
  | pubComp a => exact completed _ _ _
  | subAck p => exact completed _ _ _
  | unsubAck p => exact completed _ _ _
  | pubRec a =>
    have same := receivePubRec_with_connection arrived c now a
    exact congrArg (fun r : Session × Option Packet => (r.1, Except.ok r.2)) same
  | pubRel a =>
    have same := receivePubRel_with_connection arrived c a
    exact congrArg (fun r : Session × Packet => (r.1, Except.ok (some r.2))) same
  | pingResp => rfl
  | connect | connAck | publish | subscribe | unsubscribe | pingReq | disconnect => cases hp

theorem receive_response_ne_error (hp : packet.isResponse = true) (s : Session) (now : Time)
    (e : SessionError) : (s.receive now packet).2 ≠ .error e := by
  cases packet with
  | pubAck | pubRec | pubRel | pubComp | subAck | unsubAck | pingResp => exact nofun
  | connect | connAck | publish | subscribe | unsubscribe | pingReq | disconnect => cases hp

theorem receive_response_of_not_awaits (hp : packet.isResponse = true) (ha : ¬ s.Awaits packet)
    (now : Time) : (s.receive now packet).1 = { s with lastIncoming := now } := by
  have ignored : ∀ (k : UInt16) (fits : Transaction → Bool) (e : Event),
      (∀ t, s.outgoing[k]? = some t → fits t = false) →
      ({ s with lastIncoming := now } : Session).complete k fits e =
        { s with lastIncoming := now } := by
    intro k fits e none
    obtain ⟨-, same⟩ | ⟨t, ht, hf, -⟩ :=
      complete_cases { s with lastIncoming := now } k fits e
    · exact same
    · rw [none t ht] at hf
      cases hf
  cases packet with
  | pubAck a =>
    refine ignored _ _ _ fun t ht => Bool.eq_false_iff.2 fun hf => ha ⟨t, ht, ?_⟩
    simpa using hf
  | pubComp a =>
    refine ignored _ _ _ fun t ht => Bool.eq_false_iff.2 fun hf => ha ⟨t, ht, ?_⟩
    simpa using hf
  | subAck p =>
    refine ignored _ _ _ fun t ht => Bool.eq_false_iff.2 fun hf => ha ⟨t, ht, ?_⟩
    simpa using hf
  | unsubAck p =>
    refine ignored _ _ _ fun t ht => Bool.eq_false_iff.2 fun hf => ha ⟨t, ht, ?_⟩
    simpa using hf
  | pubRec a =>
    obtain ⟨-, same⟩ | ⟨t, ht, hq, -⟩ :=
      receivePubRec_cases { s with lastIncoming := now } now a
    · exact congrArg (·.1) same
    · exact absurd ⟨t, ht, hq⟩ ha
  | pubRel a =>
    have unknown : ¬ s.received.contains a.packetId = true := ha
    simp [receive, receivePubRel, unknown]
  | pingResp => exact absurd trivial ha
  | connect | connAck | publish | subscribe | unsubscribe | pingReq | disconnect => cases hp

theorem receive_of_refused (hc : s.connection = .connecting) (hh : packet.isHandshake = false)
    (hp : packet.isResponse = false) (now : Time) :
    s.receive now packet = ({ s with lastIncoming := now }, .error .wrongPacket) := by
  cases packet with
  | publish p => simp [receive, receivePublish, hc]
  | connect | subscribe | unsubscribe | pingReq => rfl
  | connAck | disconnect => cases hh
  | pubAck | pubRec | pubRel | pubComp | subAck | unsubAck | pingResp => cases hp

theorem receive_of_not_awaits (hc : s.connection = .connecting) (hh : packet.isHandshake = false)
    (ha : ¬ s.Awaits packet) (now : Time) :
    (s.receive now packet).1 = { s with lastIncoming := now } := by
  cases hp : packet.isResponse with
  | false => rw [receive_of_refused hc hh hp]
  | true => exact receive_response_of_not_awaits hp ha now

/-- Before the broker accepts the connection, exactly the packets that are no responses are refused,
and these and the responses that nothing awaits leave everything but the time of arrival as it was.
A response is handled as on a connection, and the handshake goes on. -/
theorem receive_of_connecting (hc : s.connection = .connecting)
    (hh : packet.isHandshake = false) (now : Time) :
    ((s.receive now packet).2 = .error .wrongPacket ↔ packet.isResponse = false) ∧
    (¬ s.Awaits packet → (s.receive now packet).1 = { s with lastIncoming := now }) ∧
    (packet.isResponse = true →
      let connected : Session := { s with connection := .connected }
      s.receive now packet = ({ (connected.receive now packet).1 with connection := .connecting },
        (connected.receive now packet).2)) := by
  refine ⟨?_, fun ha => receive_of_not_awaits hc hh ha now, fun hp => ?_⟩
  · cases hp : packet.isResponse with
    | false => simp [receive_of_refused hc hh hp]
    | true => simp [receive_response_ne_error hp]
  · have self : { s with connection := .connecting } = s := by rw [← hc]
    dsimp only
    rw [← receive_with_connection hp, self]

def reconnecting : Session :=
  (new 100).run [.connecting, .receive 0 (.connAck { sessionPresent := false, code := .success }),
    .send 0 (.publish { qos := .atLeastOnce, topic := "t", payload := [] }), .disconnected,
    .connecting]

theorem receive_of_reconnecting :
    let early : Packet := .pubAck { packetId := 1, reason := .success }
    reconnecting.connection = .connecting ∧ early.isHandshake = false ∧
      (reconnecting.receive 0 early).2 ≠ .error .wrongPacket := by
  intro early
  have hc : reconnecting.connection = .connecting := by decide +kernel
  have hh : early.isHandshake = false := rfl
  have refused := (receive_of_connecting hc hh 0).1
  exact ⟨hc, hh, fun error => nomatch refused.1 error⟩

/-- An acknowledgement that comes before the broker accepts the new connection ends the transaction
of a connection that was lost. -/
theorem not_receive_eq_wrongPacket :
    ¬ ∀ (maxInflight : UInt16) (ops : List Operation) (now : Time) (packet : Packet),
      let s := (new maxInflight).run ops
      s.connection = .connecting → packet.isHandshake = false →
      (s.receive now packet).2 = .error .wrongPacket ∧
        (s.receive now packet).1.outgoing = s.outgoing ∧
        (s.receive now packet).1.received = s.received ∧
        (s.receive now packet).1.events = s.events := by
  intro refuses
  have pending : reconnecting.inflight = 1 := by decide +kernel
  have ended : (reconnecting.receive 0 (.pubAck { packetId := 1, reason := .success })).1.inflight =
      0 := by decide +kernel
  obtain ⟨-, same, -⟩ := refuses 100 _ 0 (.pubAck { packetId := 1, reason := .success })
    (show reconnecting.connection = .connecting by decide +kernel) rfl
  have := congrArg (·.size) same
  change (reconnecting.receive 0 _).1.inflight = reconnecting.inflight at this
  rw [ended, pending] at this
  cases this

end Session

end MqttClient
