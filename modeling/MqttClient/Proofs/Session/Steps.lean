import MqttClient.Proofs.Listing
import MqttClient.Proofs.Session.Table

/-! What each operation of a session may do, said once: every later argument about requests, packets
of the broker, replays and late acknowledgements goes by the cases below. -/

namespace MqttClient

def Event.Ends : Event → UInt16 → Phase → Prop
  | .published packetId _, k, phase => packetId = k ∧ (phase = .sent ∨ phase = .released)
  | .subscribed p, k, phase => p.packetId = k ∧ phase = .subscribing
  | .unsubscribed p, k, phase => p.packetId = k ∧ phase = .unsubscribing
  | _, _, _ => False

namespace Session

theorem start_isSound {s : Session} (h : s.IsSound) (now : Time) (phase : Phase)
    (packet : UInt16 → Packet)
    (hp : ∀ k order, Transaction.HoldsPacket
      { packetId := k, packet := packet k, phase, lastSent := now, order }) :
    (s.start now phase packet).1.IsSound := by
  rcases hs : s.start now phase packet with ⟨s', e | sent⟩
  · exact (start_eq_error hs).1 ▸ h
  · obtain ⟨k, -, -, ne, -, rfl⟩ := start_eq_ok hs
    exact h.track ne (hp k _)

theorem sendPublish_isSound {s : Session} (h : s.IsSound) (now : Time) (p : Publish) :
    (s.sendPublish now p).1.IsSound := by
  unfold sendPublish
  split
  · split <;> exact h
  · next hq => exact start_isSound h now .sent _ fun _ _ => ⟨_, rfl, rfl, hq, rfl⟩

theorem sendPing_isSound {s : Session} (h : s.IsSound) : s.sendPing.1.IsSound := by
  unfold sendPing
  split
  · split
    · exact h
    · exact h.congr rfl rfl
  · exact h

theorem send_isSound {s : Session} (h : s.IsSound) (now : Time) (r : Request) :
    (s.send now r).1.IsSound := by
  cases r with
  | connect p =>
    simp only [send]
    split <;> exact h
  | publish p => exact sendPublish_isSound h now p
  | subscribe p => exact start_isSound h now .subscribing _ fun _ _ => ⟨_, rfl, rfl⟩
  | unsubscribe p => exact start_isSound h now .unsubscribing _ fun _ _ => ⟨_, rfl, rfl⟩
  | pingReq => exact sendPing_isSound h
  | disconnect p => exact h.congr rfl rfl

/-- What a packet that is not refused does to a session, and the events that report it. -/
inductive Receipt (now : Time) (s : Session) : Session → List Event → Prop
  | noted (received : Std.TreeSet UInt16) : Receipt now s { s with received } []
  | message (p : Publish) (received : Std.TreeSet UInt16) (hc : s.connection ≠ .connecting) :
    Receipt now s { s with received } [.message p]
  | release {k : UInt16} {t : Transaction} (ht : s.outgoing[k]? = some t)
    (hq : t.isPublish .exactlyOnce = true) :
    Receipt now s
      { s with outgoing := s.outgoing.insert k
                 { t with phase := .released, retries := 0, lastSent := now } } []
  | ended {k : UInt16} {t : Transaction} {e : Event} (ht : s.outgoing[k]? = some t)
    (he : e.Ends k t.phase) : Receipt now s (s.forget k) [e]
  | accepted (p : ConnAck) (hc : s.connection = .connecting) :
    Receipt now s { s with connection := .connected } [.connected p]
  | rejected (p : ConnAck) (hc : s.connection = .connecting) :
    Receipt now s { s with connection := .disconnected } [.rejected p]
  | pong : Receipt now s { s with awaitPingResp := false } [.pingResp]
  | closed (p : Disconnect) : Receipt now s s.disconnecting [.disconnected p]

theorem Receipt.isSound {now : Time} {s s' : Session} {events : List Event}
    (r : Receipt now s s' events) (h : s.IsSound) : s'.IsSound := by
  cases r with
  | noted | message | accepted | rejected | pong | closed => exact h.congr rfl rfl
  | release ht hq => exact h.replace ht ((h.fits ht).release hq now) rfl
  | ended => exact h.forget _

theorem Receipt.events_eq {now : Time} {s s' : Session} {events : List Event}
    (r : Receipt now s s' events) : s'.events = s.events := by
  cases r <;> rfl

theorem complete_cases (s : Session) (k : UInt16) (fits : Transaction → Bool) (e : Event) :
    ((∀ t, s.outgoing[k]? = some t → fits t = false) ∧ s.complete k fits e = s) ∨
    ∃ t, s.outgoing[k]? = some t ∧ fits t = true ∧ s.complete k fits e = (s.forget k).push e := by
  unfold complete transaction?
  split
  · next t ht =>
    split
    · next hf => exact .inr ⟨t, ht, hf, rfl⟩
    · next hf => exact .inl ⟨by simpa [ht] using hf, rfl⟩
  · next ht => exact .inl ⟨by simp [ht], rfl⟩

theorem complete_receipt (now : Time) (s : Session) (k : UInt16) (fits : Transaction → Bool)
    (e : Event) (he : ∀ t, s.outgoing[k]? = some t → fits t = true → e.Ends k t.phase) :
    ∃ s' events, Receipt now s s' events ∧
      s.complete k fits e = { s' with events := s.events ++ events } := by
  obtain ⟨-, same⟩ | ⟨t, ht, hf, ended⟩ := s.complete_cases k fits e
  · exact ⟨_, _, .noted s.received, by simp [same]⟩
  · exact ⟨_, _, .ended ht (he t ht hf), ended⟩

theorem receivePubRec_cases (s : Session) (now : Time) (a : Ack PublishReason) :
    ((∀ t, s.outgoing[a.packetId]? = some t → t.isPublish .exactlyOnce = false) ∧
      s.receivePubRec now a =
        (s, some (.pubRel { packetId := a.packetId, reason := .packetIdentifierNotFound }))) ∨
    ∃ t, s.outgoing[a.packetId]? = some t ∧ t.isPublish .exactlyOnce = true ∧
      ((a.reason.isSuccess = true ∧ s.receivePubRec now a =
        ({ s with outgoing := s.outgoing.insert a.packetId
                    { t with phase := .released, retries := 0, lastSent := now } },
          some (.pubRel { packetId := a.packetId, reason := .success }))) ∨
      (a.reason.isSuccess = false ∧ s.receivePubRec now a =
        ((s.forget a.packetId).push (.published a.packetId (.pubRec a)), none))) := by
  unfold receivePubRec transaction?
  dsimp only
  split
  · next t ht =>
    split
    · next hq =>
      refine .inr ⟨t, ht, hq, ?_⟩
      split
      · next success => exact .inl ⟨success, rfl⟩
      · next failure => exact .inr ⟨by simpa using failure, rfl⟩
    · next hq => exact .inl ⟨by simpa [ht] using hq, rfl⟩
  · next ht => exact .inl ⟨by simp [ht], rfl⟩

theorem receivePubRec_receipt {s : Session} (h : s.IsSound) (now : Time) (a : Ack PublishReason) :
    ∃ s' events, Receipt now s s' events ∧
      (s.receivePubRec now a).1 = { s' with events := s.events ++ events } := by
  obtain ⟨-, he⟩ | ⟨t, ht, hq, ⟨-, he⟩ | ⟨-, he⟩⟩ := s.receivePubRec_cases now a
  all_goals rw [he]
  · exact ⟨_, _, .noted s.received, by simp⟩
  · exact ⟨_, _, .release ht hq, by simp⟩
  · exact ⟨_, _, .ended (e := .published a.packetId (.pubRec a)) ht
      ⟨rfl, (h.fits ht).phase_of_isPublish hq⟩, rfl⟩

theorem receivePubRel_receipt (now : Time) (s : Session) (a : Ack ReleaseReason) :
    ∃ s' events, Receipt now s s' events ∧
      (s.receivePubRel a).1 = { s' with events := s.events ++ events } := by
  unfold receivePubRel
  split
  · exact ⟨_, _, .noted (s.received.erase a.packetId), by simp⟩
  · exact ⟨_, _, .noted s.received, by simp⟩

theorem receiveConnAck_cases (now : Time) (s : Session) (p : ConnAck) :
    (∃ e, s.receiveConnAck p = (s, .error e)) ∨
    ∃ s' events reply, Receipt now s s' events ∧
      s.receiveConnAck p = ({ s' with events := s.events ++ events }, .ok reply) := by
  unfold receiveConnAck
  split
  · next hc =>
    split
    · exact .inr ⟨_, _, _, .accepted p hc, rfl⟩
    · exact .inr ⟨_, _, _, .rejected p hc, rfl⟩
  · exact .inl ⟨_, rfl⟩

theorem receivePublish_cases (now : Time) (s : Session) (p : Publish) :
    (∃ e, s.receivePublish p = (s, .error e)) ∨
    ∃ s' events reply, Receipt now s s' events ∧
      s.receivePublish p = ({ s' with events := s.events ++ events }, .ok reply) := by
  unfold receivePublish
  split
  · exact .inl ⟨_, rfl⟩
  · next hc =>
    right
    split
    · exact ⟨_, _, _, .message p s.received hc, rfl⟩
    · exact ⟨_, _, _, .message p s.received hc, rfl⟩
    · dsimp only
      split
      · exact ⟨_, _, _, .noted s.received, Prod.ext (by simp) rfl⟩
      · exact ⟨_, _, _, .message p _ hc, rfl⟩

theorem receive_cases {s : Session} (h : s.IsSound) (now : Time) (packet : Packet) :
    (∃ e, s.receive now packet = ({ s with lastIncoming := now }, .error e)) ∨
    ∃ s' events reply, Receipt now { s with lastIncoming := now } s' events ∧
      s.receive now packet = ({ s' with events := s.events ++ events }, .ok reply) := by
  let arrived : Session := { s with lastIncoming := now }
  have h' : arrived.IsSound := h.congr rfl rfl
  cases packet with
  | connAck p => exact receiveConnAck_cases now arrived p
  | publish p => exact receivePublish_cases now arrived p
  | pubAck a =>
    obtain ⟨s', events, hr, e⟩ := complete_receipt now arrived a.packetId
      (fun t => t.phase == .sent && t.isPublish .atLeastOnce)
      (.published a.packetId (.pubAck a)) (by
        intro t _ hf
        simp only [Bool.and_eq_true, beq_iff_eq] at hf
        exact ⟨rfl, .inl hf.1⟩)
    exact .inr ⟨s', events, none, hr, Prod.ext e rfl⟩
  | pubRec a =>
    obtain ⟨s', events, hr, e⟩ := receivePubRec_receipt h' now a
    exact .inr ⟨s', events, _, hr, Prod.ext e rfl⟩
  | pubRel a =>
    obtain ⟨s', events, hr, e⟩ := receivePubRel_receipt now arrived a
    exact .inr ⟨s', events, _, hr, Prod.ext e rfl⟩
  | pubComp a =>
    obtain ⟨s', events, hr, e⟩ := complete_receipt now arrived a.packetId (·.phase == .released)
      (.published a.packetId (.pubComp a)) (by
        intro t _ hf
        exact ⟨rfl, .inr (by simpa using hf)⟩)
    exact .inr ⟨s', events, none, hr, Prod.ext e rfl⟩
  | subAck p =>
    obtain ⟨s', events, hr, e⟩ := complete_receipt now arrived p.packetId (·.phase == .subscribing)
      (.subscribed p) (by
        intro t _ hf
        exact ⟨rfl, by simpa using hf⟩)
    exact .inr ⟨s', events, none, hr, Prod.ext e rfl⟩
  | unsubAck p =>
    obtain ⟨s', events, hr, e⟩ := complete_receipt now arrived p.packetId
      (·.phase == .unsubscribing) (.unsubscribed p) (by
        intro t _ hf
        exact ⟨rfl, by simpa using hf⟩)
    exact .inr ⟨s', events, none, hr, Prod.ext e rfl⟩
  | pingResp => exact .inr ⟨_, _, _, .pong, rfl⟩
  | disconnect p => exact .inr ⟨_, _, _, .closed p, rfl⟩
  | connect | subscribe | unsubscribe | pingReq => exact .inl ⟨_, rfl⟩

theorem receive_isSound {s : Session} (h : s.IsSound) (now : Time) (packet : Packet) :
    (s.receive now packet).1.IsSound := by
  have h' : ({ s with lastIncoming := now } : Session).IsSound := h.congr rfl rfl
  obtain ⟨e, he⟩ | ⟨s', events, reply, hr, he⟩ := receive_cases h now packet
  · rw [he]
    exact h'
  · rw [he]
    exact (hr.isSound h').congr rfl rfl

theorem receive_publish_atLeastOnce {s : Session} (hc : s.connection = .connected) (now : Time)
    {p : Publish} (hq : p.qos = .atLeastOnce) :
    s.receive now (.publish p) =
      ({ s with lastIncoming := now, events := s.events ++ [.message p] },
        .ok (some (.pubAck { packetId := p.packetId, reason := .success }))) := by
  simp [receive, receivePublish, hc, hq, push]

theorem receive_publish_exactlyOnce {s : Session} (hc : s.connection ≠ .connecting) (now : Time)
    {p : Publish} (hq : p.qos = .exactlyOnce) :
    ∃ r : Session, s.receive now (.publish p) =
        (r, .ok (some (.pubRec { packetId := p.packetId, reason := .success }))) ∧
      r.connection = s.connection ∧
      r.events = s.events ++ (if s.received.contains p.packetId then [] else [.message p]) ∧
      ∀ k, r.received.contains k = (s.received.contains k || decide (p.packetId = k)) := by
  by_cases hr : s.received.contains p.packetId = true
  · refine ⟨{ s with lastIncoming := now }, ?_, rfl, by simp [hr], fun k => ?_⟩
    · simp [receive, receivePublish, hc, hq, hr]
    · by_cases e : p.packetId = k
      · simp [← e, hr]
      · simp [e]
  · refine ⟨{ s with
      lastIncoming := now
      received := s.received.insert p.packetId
      events := s.events ++ [.message p] }, ?_, rfl, by simp [hr], fun k => ?_⟩
    · simp [receive, receivePublish, hc, hq, hr, push]
    · by_cases e : p.packetId = k
      · simp [e]
      · have : compare p.packetId k ≠ .eq := by simpa using e
        simp [Std.TreeSet.contains_insert, e, this]

theorem receive_pubRel (s : Session) (now : Time) (a : Ack ReleaseReason) :
    ∃ (r : Session) (reason : ReleaseReason), s.receive now (.pubRel a) =
        (r, .ok (some (.pubComp { packetId := a.packetId, reason }))) ∧
      r.connection = s.connection ∧ r.events = s.events ∧
      ∀ k, r.received.contains k = (s.received.contains k && !decide (a.packetId = k)) := by
  by_cases hr : s.received.contains a.packetId = true
  · refine ⟨{ s with lastIncoming := now, received := s.received.erase a.packetId }, .success, ?_,
      rfl, rfl, fun k => ?_⟩
    · simp [receive, receivePubRel, hr]
    · by_cases e : a.packetId = k
      · simp [e]
      · have : compare a.packetId k ≠ .eq := by simpa using e
        simp [Std.TreeSet.contains_erase, e, this]
  · refine ⟨{ s with lastIncoming := now }, .packetIdentifierNotFound, ?_, rfl, rfl, fun k => ?_⟩
    · simp [receive, receivePubRel, hr]
    · by_cases e : a.packetId = k
      · simp [← e, Bool.eq_false_iff.2 hr]
      · simp [e]

theorem receive_pubAck_cases (s : Session) (now : Time) (a : Ack PublishReason) :
    s.receive now (.pubAck a) = ({ s with lastIncoming := now }, .ok none) ∨
    ∃ t, s.outgoing[a.packetId]? = some t ∧ t.isPublish .atLeastOnce = true ∧
      s.receive now (.pubAck a) = (({ s with lastIncoming := now }.forget a.packetId).push
        (.published a.packetId (.pubAck a)), .ok none) := by
  obtain ⟨-, same⟩ | ⟨t, ht, hf, ended⟩ := complete_cases { s with lastIncoming := now } a.packetId
    (fun t => t.phase == .sent && t.isPublish .atLeastOnce) (.published a.packetId (.pubAck a))
  · exact .inl (Prod.ext same rfl)
  · simp only [Bool.and_eq_true] at hf
    exact .inr ⟨t, ht, hf.2, Prod.ext ended rfl⟩

theorem receive_pubRec_success {s : Session} (now : Time) {a : Ack PublishReason} {t : Transaction}
    (ha : a.reason = .success) (ht : s.outgoing[a.packetId]? = some t)
    (hq : t.isPublish .exactlyOnce = true) :
    s.receive now (.pubRec a) =
      ({ s with
         lastIncoming := now
         outgoing := s.outgoing.insert a.packetId
           { t with phase := .released, retries := 0, lastSent := now } },
        .ok (some (.pubRel { packetId := a.packetId, reason := .success }))) := by
  have success : PublishReason.isSuccess .success = true := rfl
  simp [receive, receivePubRec, transaction?, ht, hq, ha, success]

theorem receive_pubRec_cases (s : Session) (now : Time) (a : Ack PublishReason) :
    ((∀ t, s.outgoing[a.packetId]? = some t → t.isPublish .exactlyOnce = false) ∧
      s.receive now (.pubRec a) = ({ s with lastIncoming := now },
        .ok (some (.pubRel { packetId := a.packetId, reason := .packetIdentifierNotFound })))) ∨
    ∃ t, s.outgoing[a.packetId]? = some t ∧ t.isPublish .exactlyOnce = true ∧
      ((a.reason.isSuccess = true ∧ s.receive now (.pubRec a) =
        ({ s with
           lastIncoming := now
           outgoing := s.outgoing.insert a.packetId
             { t with phase := .released, retries := 0, lastSent := now } },
          .ok (some (.pubRel { packetId := a.packetId, reason := .success })))) ∨
      (a.reason.isSuccess = false ∧ s.receive now (.pubRec a) =
        (({ s with lastIncoming := now }.forget a.packetId).push
          (.published a.packetId (.pubRec a)), .ok none))) := by
  obtain ⟨none, he⟩ | ⟨t, ht, hq, ⟨success, he⟩ | ⟨failure, he⟩⟩ :=
    receivePubRec_cases { s with lastIncoming := now } now a
  · exact .inl ⟨none, by simp only [receive, he]⟩
  · exact .inr ⟨t, ht, hq, .inl ⟨success, by simp only [receive, he]⟩⟩
  · exact .inr ⟨t, ht, hq, .inr ⟨failure, by simp only [receive, he]⟩⟩

theorem receive_pubComp_cases (s : Session) (now : Time) (a : Ack ReleaseReason) :
    ((∀ t, s.outgoing[a.packetId]? = some t → t.phase ≠ .released) ∧
      s.receive now (.pubComp a) = ({ s with lastIncoming := now }, .ok none)) ∨
    ∃ t, s.outgoing[a.packetId]? = some t ∧ t.phase = .released ∧
      s.receive now (.pubComp a) = (({ s with lastIncoming := now }.forget a.packetId).push
        (.published a.packetId (.pubComp a)), .ok none) := by
  obtain ⟨none, same⟩ | ⟨t, ht, hf, ended⟩ := complete_cases { s with lastIncoming := now }
    a.packetId (·.phase == .released) (.published a.packetId (.pubComp a))
  · exact .inl ⟨fun t ht => by simpa using none t ht, Prod.ext same rfl⟩
  · exact .inr ⟨t, ht, by simpa using hf, Prod.ext ended rfl⟩

theorem getElem?_replay (s : Session) (now : Time) (k : UInt16) :
    (s.replay now).1.outgoing[k]? =
      (s.outgoing[k]?).map fun t => { t with retries := 0, lastSent := now } := by
  simp [replay]

theorem replay_isSound {s : Session} (h : s.IsSound) (now : Time) : (s.replay now).1.IsSound := by
  have old : ∀ {k : UInt16} {t}, (s.replay now).1.outgoing[k]? = some t →
      ∃ u, s.outgoing[k]? = some u ∧ t = { u with retries := 0, lastSent := now } := by
    intro k t ht
    rw [getElem?_replay, Option.map_eq_some_iff] at ht
    obtain ⟨u, hu, rfl⟩ := ht
    exact ⟨u, hu, rfl⟩
  refine ⟨fun ht => ?_, fun ht => ?_, fun ht hu e => ?_⟩
  · obtain ⟨u, hu, rfl⟩ := old ht
    exact (h.fits hu).touch 0 now
  · obtain ⟨u, hu, rfl⟩ := old ht
    exact (h.order_le hu : u.order ≤ s.lastOrder)
  · obtain ⟨t', ht', rfl⟩ := old ht
    obtain ⟨u', hu', rfl⟩ := old hu
    exact h.order_inj ht' hu' e

theorem retransmit_cases (s : Session) (now : Time) (k maxRetries : UInt16) :
    (s.outgoing[k]? = none ∧ s.retransmit now k maxRetries = (s, .unknown)) ∨
    ∃ t, s.outgoing[k]? = some t ∧
      (s.retransmit now k maxRetries = (s.forget k, .expired t) ∨
        t.isRetried = true ∧ s.retransmit now k maxRetries =
          ({ s with outgoing := s.outgoing.insert k
                      { t with retries := t.retries + 1, lastSent := now } },
            .resend t.resend)) := by
  unfold retransmit transaction?
  split
  · next t ht =>
    refine .inr ⟨t, ht, ?_⟩
    split
    · next hr =>
      simp only [Bool.and_eq_true] at hr
      exact .inr ⟨hr.1, rfl⟩
    · exact .inl rfl
  · next ht => exact .inl ⟨ht, rfl⟩

theorem retransmit_isSound {s : Session} (h : s.IsSound) (now : Time) (k maxRetries : UInt16) :
    (s.retransmit now k maxRetries).1.IsSound := by
  obtain ⟨-, e⟩ | ⟨t, ht, e | ⟨-, e⟩⟩ := retransmit_cases s now k maxRetries
  all_goals rw [e]
  · exact h
  · exact h.forget k
  · exact h.replace ht ((h.fits ht).touch _ now) rfl

theorem transactions_perm (s : Session) :
    s.transactions.Perm (s.outgoing.toList.map (·.2)) := by
  unfold transactions
  rw [← Listing.values_eq_map_toList]
  exact List.mergeSort_perm _ _

theorem mem_transactions_iff {s : Session} {t : Transaction} :
    t ∈ s.transactions ↔ ∃ k : UInt16, s.outgoing[k]? = some t := by
  simp only [(transactions_perm s).mem_iff, List.mem_map, Prod.exists, exists_eq_right,
    Std.TreeMap.mem_toList_iff_getElem?_eq_some]

theorem mem_replay {s : Session} {now : Time} {packet : Packet} :
    packet ∈ (s.replay now).2 ↔
      ∃ (k : UInt16) (t : Transaction), s.outgoing[k]? = some t ∧ t.resend = packet := by
  simp only [replay, List.mem_map, mem_transactions_iff]
  constructor
  · rintro ⟨t, ⟨k, ht⟩, rfl⟩
    exact ⟨k, t, ht, rfl⟩
  · rintro ⟨k, t, ht, rfl⟩
    exact ⟨t, ⟨k, ht⟩, rfl⟩

theorem filterMap_replay {β : Type} (s : Session) (now : Time) (f : Packet → Option β) (k : UInt16)
    (hf : ∀ (j : UInt16) (t : Transaction), s.outgoing[j]? = some t → j ≠ k → f t.resend = none) :
    (s.replay now).2.filterMap f = (s.outgoing[k]?.bind fun t => f t.resend).toList := by
  have hp : ((s.replay now).2.filterMap f).Perm
      (s.outgoing.toList.filterMap fun p => f p.2.resend) := by
    simp only [replay, List.filterMap_map]
    exact ((transactions_perm s).filterMap _).trans (.of_eq (by rw [List.filterMap_map]; rfl))
  -- Of the packets of other identifiers `f` sees nothing.
  have rest : ∀ t : Std.TreeMap UInt16 Transaction,
      (∀ j u, t[j]? = some u → s.outgoing[j]? = some u ∧ j ≠ k) →
      t.toList.filterMap (fun p => f p.2.resend) = [] := by
    intro t ht
    rw [List.filterMap_eq_nil_iff]
    rintro ⟨j, u⟩ hm
    obtain ⟨hu, ne⟩ := ht j u (Std.TreeMap.mem_toList_iff_getElem?_eq_some.1 hm)
    exact hf j u hu ne
  rcases hk : s.outgoing[k]? with _ | t
  · rw [rest s.outgoing fun j u hu => ⟨hu, fun e => by simp [e ▸ hu] at hk⟩] at hp
    simpa using hp
  · have others : (s.outgoing.erase k).toList.filterMap (fun p => f p.2.resend) = [] := by
      refine rest _ fun j u hu => ?_
      rw [Std.TreeMap.getElem?_erase] at hu
      split at hu
      · cases hu
      · next ne => exact ⟨hu, fun e => by simp [e] at ne⟩
    have hp := hp.trans ((Listing.toList_perm_erase hk).filterMap _)
    rw [List.filterMap_cons, others] at hp
    rcases he : f t.resend with _ | b
    · simpa [he] using hp
    · simpa [he] using hp

end Session

end MqttClient
