import MqttClient.Proofs.Session.Run

/-! What one operation means to the open transactions. What it opens and what it ends is read off
from what it answers and from the events that it adds, and every later argument about the ends of
transactions goes by the cases below. -/

namespace MqttClient

def Event.ended? : Event → Option UInt16
  | .published packetId _ => some packetId
  | .subscribed p => some p.packetId
  | .unsubscribed p => some p.packetId
  | _ => none

def Event.packet : Event → Packet
  | .connected p | .rejected p => .connAck p
  | .published _ (.pubAck a) => .pubAck a
  | .published _ (.pubRec a) => .pubRec a
  | .published _ (.pubComp a) => .pubComp a
  | .subscribed p => .subAck p
  | .unsubscribed p => .unsubAck p
  | .message p => .publish p
  | .pingResp => .pingResp
  | .disconnected p => .disconnect p

def Packet.isAck : Packet → Bool
  | .pubAck _ | .pubRec _ | .pubRel _ | .pubComp _ | .subAck _ | .unsubAck _ => true
  | _ => false

inductive Ending
  | reported (e : Event)
  | expired
  | forgotten
  | cleaned

namespace Session

def news (s : Session) (op : Operation) : List Event := (s.step op).events.drop s.events.length

def opened (s : Session) : Operation → List Transaction
  | .send now r =>
    match s.send now r with
    | (s', .ok packet) => (s'.transaction? (Engine.packetIdOf packet)).toList
    | (_, .error _) => []
  | _ => []

def reported (s : Session) (op : Operation) : List (Transaction × Ending) :=
  (s.news op).filterMap fun e => (e.ended?.bind s.transaction?).map (·, .reported e)

/-- The open transactions that an operation gives up without an acknowledgement. -/
def givenUp (s : Session) : Operation → List (Transaction × Ending)
  | .retransmit now packetId maxRetries =>
    match (s.retransmit now packetId maxRetries).2 with
    | .expired t => [(t, .expired)]
    | _ => []
  | .forget packetId => (s.transaction? packetId).toList.map (·, .forgotten)
  | .clean => s.transactions.map (·, .cleaned)
  | _ => []

def ended (s : Session) (op : Operation) : List (Transaction × Ending) :=
  s.reported op ++ s.givenUp op

end Session

def Event.Reports : Event → Transaction → Prop
  | .published _ (.pubAck _), t => t.phase = .sent ∧ t.isPublish .atLeastOnce = true
  | .published _ (.pubRec a), t => a.reason.isSuccess = false ∧ t.isPublish .exactlyOnce = true
  | .published _ (.pubComp _), t => t.phase = .released
  | .subscribed _, t => t.phase = .subscribing
  | .unsubscribed _, t => t.phase = .unsubscribing
  | _, _ => False

def Ending.Fits : Ending → Transaction → Prop
  | .reported e, t => e.Reports t
  | _, _ => True

/-- What does not change when a packet is sent again. -/
def Transaction.content (t : Transaction) : Nat × Packet × Phase := (t.order, t.packet, t.phase)

namespace Session

/-- A packet leaves the open transactions as they are, releases a message or ends a transaction. -/
inductive Hearing (now : Time) (s : Session) : Packet → Session → List Event → Prop
  | passed {p : Packet} {s' : Session} {events : List Event}
    (outgoing_eq : s'.outgoing = s.outgoing) (lastOrder_eq : s'.lastOrder = s.lastOrder)
    (quiet : ∀ e ∈ events, e.ended? = none) (silent : p.isAck = true → events = []) :
    Hearing now s p s' events
  | released {a : Ack PublishReason} {t : Transaction} (success : a.reason.isSuccess = true)
    (ht : s.outgoing[a.packetId]? = some t) (hq : t.isPublish .exactlyOnce = true) :
    Hearing now s (.pubRec a)
      { s with outgoing := s.outgoing.insert a.packetId
                 { t with phase := .released, retries := 0, lastSent := now } } []
  | ended {p : Packet} {e : Event} {k : UInt16} {t : Transaction} (hk : e.ended? = some k)
    (ht : s.outgoing[k]? = some t) (fits : e.Reports t) : Hearing now s p (s.forget k) [e]

theorem complete_hearing (now : Time) (s : Session) (p : Packet) {k : UInt16}
    {fits : Transaction → Bool} {e : Event} (hk : e.ended? = some k)
    (he : ∀ t, fits t = true → e.Reports t) :
    ∃ s' events, Hearing now s p s' events ∧
      s.complete k fits e = { s' with events := s.events ++ events } := by
  obtain ⟨-, same⟩ | ⟨t, ht, hf, ended⟩ := s.complete_cases k fits e
  · exact ⟨s, [], .passed rfl rfl (List.forall_mem_nil _) fun _ => rfl, by simp [same]⟩
  · exact ⟨s.forget k, [e], .ended hk ht (he t hf), ended⟩

theorem receivePubRec_hearing (now : Time) (s : Session) (a : Ack PublishReason) :
    ∃ s' events, Hearing now s (.pubRec a) s' events ∧
      (s.receivePubRec now a).1 = { s' with events := s.events ++ events } := by
  obtain ⟨-, he⟩ | ⟨t, ht, hq, ⟨success, he⟩ | ⟨failure, he⟩⟩ := s.receivePubRec_cases now a
  all_goals rw [he]
  · exact ⟨s, [], .passed rfl rfl (List.forall_mem_nil _) fun _ => rfl, by simp⟩
  · exact ⟨_, _, .released success ht hq, by simp⟩
  · refine ⟨s.forget a.packetId, [.published a.packetId (.pubRec a)], ?_, rfl⟩
    exact .ended rfl ht ⟨failure, hq⟩

theorem receivePublish_hearing (now : Time) (s : Session) (p : Publish) :
    ∃ s' events, Hearing now s (.publish p) s' events ∧
      (s.receivePublish p).1 = { s' with events := s.events ++ events } := by
  have passed : ∀ received events, (∀ e ∈ events, e.ended? = none) →
      Hearing now s (.publish p) { s with received } events := fun _ _ quiet =>
    .passed rfl rfl quiet (by simp [Packet.isAck])
  unfold receivePublish
  split
  · exact ⟨_, [], passed s.received [] (List.forall_mem_nil _), by simp⟩
  · have message : ∀ e ∈ [Event.message p], e.ended? = none := by simp [Event.ended?]
    split
    · exact ⟨_, _, passed s.received _ message, rfl⟩
    · exact ⟨_, _, passed s.received _ message, rfl⟩
    · dsimp only
      split
      · exact ⟨_, _, passed s.received [] (List.forall_mem_nil _), by simp⟩
      · exact ⟨_, _, passed _ _ message, rfl⟩

theorem receiveConnAck_hearing (now : Time) (s : Session) (p : ConnAck) :
    ∃ s' events, Hearing now s (.connAck p) s' events ∧
      (s.receiveConnAck p).1 = { s' with events := s.events ++ events } := by
  have passed : ∀ connection events, (∀ e ∈ events, e.ended? = none) →
      Hearing now s (.connAck p) { s with connection } events := fun _ _ quiet =>
    .passed rfl rfl quiet (by simp [Packet.isAck])
  unfold receiveConnAck
  split
  · split
    · exact ⟨_, _, passed .connected [.connected p] (by simp [Event.ended?]), rfl⟩
    · exact ⟨_, _, passed .disconnected [.rejected p] (by simp [Event.ended?]), rfl⟩
  · exact ⟨_, _, passed s.connection [] (List.forall_mem_nil _), by simp⟩

theorem receive_hearing (s : Session) (now : Time) (p : Packet) :
    ∃ s' events, Hearing now { s with lastIncoming := now } p s' events ∧
      (s.receive now p).1 = { s' with events := s.events ++ events } := by
  let arrived : Session := { s with lastIncoming := now }
  have passed : ∀ events, (∀ e ∈ events, e.ended? = none) → p.isAck = false →
      Hearing now arrived p arrived events := fun _ quiet other =>
    .passed rfl rfl quiet fun ack => by simp [other] at ack
  cases p with
  | connAck p => exact receiveConnAck_hearing now arrived p
  | publish p => exact receivePublish_hearing now arrived p
  | pubAck a =>
    exact complete_hearing now arrived _ rfl fun t hf => by simpa [Event.Reports] using hf
  | pubRec a => exact receivePubRec_hearing now arrived a
  | pubRel a =>
    simp only [receive, receivePubRel]
    split
    · exact ⟨{ arrived with received := arrived.received.erase a.packetId }, [],
        .passed rfl rfl (List.forall_mem_nil _) fun _ => rfl, by simp [arrived]⟩
    · exact ⟨arrived, [], .passed rfl rfl (List.forall_mem_nil _) fun _ => rfl, by simp [arrived]⟩
  | pubComp a =>
    exact complete_hearing now arrived _ rfl fun t hf => by simpa [Event.Reports] using hf
  | subAck p =>
    exact complete_hearing now arrived _ rfl fun t hf => by simpa [Event.Reports] using hf
  | unsubAck p =>
    exact complete_hearing now arrived _ rfl fun t hf => by simpa [Event.Reports] using hf
  | pingResp =>
    exact ⟨{ arrived with awaitPingResp := false }, [.pingResp],
      .passed rfl rfl (by simp [Event.ended?]) (by simp [Packet.isAck]), rfl⟩
  | disconnect p =>
    exact ⟨arrived.disconnecting, [.disconnected p],
      .passed rfl rfl (by simp [Event.ended?]) (by simp [Packet.isAck]), rfl⟩
  | connect | subscribe | unsubscribe | pingReq =>
    exact ⟨arrived, [], passed [] (List.forall_mem_nil _) rfl, by simp [receive, arrived]⟩

theorem reply_cases {s s' : Session} {now : Time} {packet reply : Packet}
    (h : s.receive now packet = (s', .ok (some reply))) :
    (∃ p : Publish, packet = .publish p ∧
      (reply = .pubAck { packetId := p.packetId, reason := .success } ∨
        reply = .pubRec { packetId := p.packetId, reason := .success })) ∨
    (∃ (a : Ack PublishReason) (reason : ReleaseReason), packet = .pubRec a ∧
      reply = .pubRel { packetId := a.packetId, reason }) ∨
    ∃ (a : Ack ReleaseReason) (reason : ReleaseReason), packet = .pubRel a ∧
      reply = .pubComp { packetId := a.packetId, reason } := by
  cases packet with
  | connAck p =>
    simp only [receive, receiveConnAck] at h
    split at h
    · split at h <;> cases h
    · cases h
  | publish p =>
    simp only [receive, receivePublish] at h
    split at h
    · cases h
    · split at h
      · cases h
      · cases h
        exact .inl ⟨p, rfl, .inl rfl⟩
      · split at h <;> cases h
        all_goals exact .inl ⟨p, rfl, .inr rfl⟩
  | pubRec a =>
    obtain ⟨-, he⟩ | ⟨t, -, -, ⟨-, he⟩ | ⟨-, he⟩⟩ :=
      receivePubRec_cases { s with lastIncoming := now } now a
    all_goals
      simp only [receive, he] at h
      cases h
    · exact .inr (.inl ⟨a, _, rfl, rfl⟩)
    · exact .inr (.inl ⟨a, _, rfl, rfl⟩)
  | pubRel a =>
    simp only [receive, receivePubRel] at h
    split at h <;> cases h
    all_goals exact .inr (.inr ⟨a, _, rfl, rfl⟩)
  | _ => cases h

theorem isAck_of_receive {s s' : Session} {now : Time} {packet reply : Packet}
    (h : s.receive now packet = (s', .ok (some reply))) : reply.isAck = true := by
  obtain ⟨p, -, rfl | rfl⟩ | ⟨a, reason, -, rfl⟩ | ⟨a, reason, -, rfl⟩ := reply_cases h
  all_goals rfl

theorem packet_of_news {s : Session} {now : Time} {packet : Packet} {e : Event}
    (he : e ∈ s.news (.receive now packet)) : e.packet = packet := by
  let arrived : Session := { s with lastIncoming := now }
  have completed : ∀ (k : UInt16) (fits : Transaction → Bool) (event : Event),
      event.packet = packet → e ∈ (arrived.complete k fits event).events.drop s.events.length →
        e.packet = packet := by
    intro k fits event same hm
    obtain ⟨-, idle⟩ | ⟨t, -, -, ended⟩ := arrived.complete_cases k fits event
    · simp [idle, arrived] at hm
    · simp only [ended, forget, push, arrived, List.drop_left, List.mem_singleton] at hm
      exact hm ▸ same
  cases packet with
  | connAck q =>
    simp only [news, step, receive, receiveConnAck] at he
    split at he
    · split at he <;> simp_all [push, Event.packet]
    · simp at he
  | publish q =>
    simp only [news, step, receive, receivePublish] at he
    split at he
    · simp at he
    · split at he
      · simp_all [push, Event.packet]
      · simp_all [push, Event.packet]
      · split at he <;> simp_all [push, Event.packet]
  | pubAck a => exact completed _ _ _ rfl he
  | pubRec a =>
    obtain ⟨-, hr⟩ | ⟨t, -, -, ⟨-, hr⟩ | ⟨-, hr⟩⟩ := s.receive_pubRec_cases now a
    all_goals simp [news, step, hr, forget, push] at he
    rw [he, Event.packet]
  | pubRel a =>
    obtain ⟨r, reason, hr, -, events, -⟩ := s.receive_pubRel now a
    simp [news, step, hr, events] at he
  | pubComp a => exact completed _ _ _ rfl he
  | subAck p => exact completed _ _ _ rfl he
  | unsubAck p => exact completed _ _ _ rfl he
  | pingResp => simp_all [news, step, receive, receivePingResp, push, Event.packet]
  | disconnect p =>
    simp_all [news, step, receive, receiveDisconnect, disconnecting, push, Event.packet]
  | connect | subscribe | unsubscribe | pingReq => simp [news, step, receive] at he

theorem accepted_of_receive {s : Session} {now : Time} {packet : Packet} {p : ConnAck}
    (quiet : s.events = []) (h : .connected p ∈ (s.receive now packet).1.events) :
    packet = .connAck p ∧ p.code = .success := by
  have reported : .connected p ∈ s.news (.receive now packet) := by
    simpa [news, step, quiet] using h
  obtain rfl : .connAck p = packet := packet_of_news reported
  refine ⟨rfl, ?_⟩
  simp only [receive, receiveConnAck] at h
  split at h
  · split at h
    · next success => exact success
    · simp [push, quiet] at h
  · simp [quiet] at h

theorem news_receive {s s' : Session} {now : Time} {p : Packet} {events : List Event}
    (he : (s.receive now p).1 = { s' with events := s.events ++ events }) :
    s.news (.receive now p) = events := by
  simp [news, step, he]

theorem send_events (s : Session) (now : Time) (r : Request) :
    (s.send now r).1.events = s.events := by
  by_cases hr : r.Opens
  · obtain ⟨phase, mk, -, -, sent⟩ := s.send_eq_start hr now
    rw [sent, start]
    split
    · split <;> rfl
    · rfl
  · obtain ⟨connection, awaitPingResp, same⟩ := s.send_of_not_opens hr now
    rw [same]

theorem news_of_not_receive {s : Session} {op : Operation} (h : ∀ now p, op ≠ .receive now p) :
    s.news op = [] := by
  cases op with
  | receive now p => exact absurd rfl (h now p)
  | send now r => simp [news, step, send_events]
  | retransmit now k maxRetries =>
    obtain ⟨-, e⟩ | ⟨t, -, e | ⟨-, e⟩⟩ := retransmit_cases s now k maxRetries
    all_goals simp [news, step, e, forget]
  | connecting =>
    simp only [news, step, connecting]
    split <;> simp
  | _ => simp [news, step, replay, forget, clean, disconnecting, disconnected, takeEvents]

theorem reported_of_not_receive (s : Session) (op : Operation)
    (h : ∀ now p, op ≠ .receive now p) : s.reported op = [] := by
  simp [reported, news_of_not_receive h]

/-- Transactions go on, perhaps one of them released, or one is opened, or one ends, or all of them
are dropped. -/
inductive Turn (s : Session) (op : Operation) : Prop
  | kept (opened_eq : s.opened op = []) (ended_eq : s.ended op = [])
    (lastOrder_eq : (s.step op).lastOrder = s.lastOrder)
    (same : ∀ k : UInt16, (s.step op).outgoing[k]?.map Transaction.content =
      s.outgoing[k]?.map Transaction.content)
  | released {now : Time} {a : Ack PublishReason} {t : Transaction}
    (hop : op = .receive now (.pubRec a)) (success : a.reason.isSuccess = true)
    (ht : s.outgoing[a.packetId]? = some t)
    (opened_eq : s.opened op = []) (ended_eq : s.ended op = [])
    (lastOrder_eq : (s.step op).lastOrder = s.lastOrder)
    (outgoing_eq : (s.step op).outgoing = s.outgoing.insert a.packetId
      { t with phase := .released, retries := 0, lastSent := now })
  | opened {k : UInt16} {t : Transaction} (free : s.outgoing[k]? = none)
    (order_eq : t.order = s.lastOrder + 1) (phase_ne : t.phase ≠ .released)
    (opened_eq : s.opened op = [t]) (ended_eq : s.ended op = [])
    (lastOrder_eq : (s.step op).lastOrder = s.lastOrder + 1)
    (outgoing_eq : (s.step op).outgoing = s.outgoing.insert k t)
  | ended {k : UInt16} {t : Transaction} {way : Ending} (ht : s.outgoing[k]? = some t)
    (fits : way.Fits t) (opened_eq : s.opened op = []) (ended_eq : s.ended op = [(t, way)])
    (lastOrder_eq : (s.step op).lastOrder = s.lastOrder)
    (outgoing_eq : (s.step op).outgoing = s.outgoing.erase k)
  | cleaned (opened_eq : s.opened op = [])
    (ended_eq : s.ended op = s.transactions.map (·, .cleaned))
    (lastOrder_eq : (s.step op).lastOrder = s.lastOrder)
    (outgoing_eq : (s.step op).outgoing = {})

theorem turn_receive (s : Session) (now : Time) (p : Packet) : s.Turn (.receive now p) := by
  obtain ⟨s', events, hearing, he⟩ := s.receive_hearing now p
  have news := news_receive he
  have outgoing : (s.step (.receive now p)).outgoing = s'.outgoing := by rw [step, he]
  have lastOrder : (s.step (.receive now p)).lastOrder = s'.lastOrder := by rw [step, he]
  cases hearing with
  | passed outgoing_eq lastOrder_eq quiet silent =>
    refine .kept rfl ?_ (lastOrder.trans lastOrder_eq) fun k => ?_
    · have none : ∀ e ∈ events,
          (e.ended?.bind s.transaction?).map (·, Ending.reported e) = none := by
        intro e he
        simp [quiet e he]
      simpa [ended, givenUp, reported, news] using none
    · rw [outgoing, outgoing_eq]
  | released success ht hq =>
    exact .released rfl success ht rfl (by simp [ended, givenUp, reported, news]) lastOrder outgoing
  | @ended _ e k t hk ht fits =>
    refine .ended ht (show (Ending.reported e).Fits t from fits) rfl ?_ lastOrder outgoing
    have found : s.transaction? k = some t := ht
    simp [ended, givenUp, reported, news, hk, found]

theorem turn_of_untracked {s s' : Session} (h : s.IsSound) {now : Time} {r : Request}
    {result : Except SessionError Packet} (hs : s.send now r = (s', result))
    (outgoing_eq : s'.outgoing = s.outgoing) (lastOrder_eq : s'.lastOrder = s.lastOrder)
    (hid : ∀ packet, result = .ok packet → Engine.packetIdOf packet = 0) :
    s.Turn (.send now r) := by
  refine .kept ?_ ?_ (by rwa [step, hs]) fun k => by rw [step, hs, outgoing_eq]
  · cases result with
    | error e => simp [opened, hs]
    | ok packet => simp [opened, hs, transaction?, hid packet rfl, outgoing_eq, h.getElem?_zero]
  · simp [ended, givenUp, reported_of_not_receive s (.send now r) (by simp)]

theorem turn_of_start {s : Session} (h : s.IsSound) {now : Time} {r : Request} {phase : Phase}
    {mk : UInt16 → Packet} (hs : s.send now r = s.start now phase mk) (hp : phase ≠ .released)
    (hid : ∀ k, Engine.packetIdOf (mk k) = k) : s.Turn (.send now r) := by
  rcases started : s.start now phase mk with ⟨s', e | packet⟩
  · obtain ⟨rfl, -⟩ := start_eq_error started
    exact turn_of_untracked h (hs.trans started) rfl rfl (by simp)
  · obtain ⟨k, -, free, -, rfl, rfl⟩ := start_eq_ok started
    have sent := hs.trans started
    refine .opened (k := k) (t := ⟨k, mk k, phase, 0, now, s.lastOrder + 1⟩) free rfl hp ?_ ?_ ?_ ?_
    · simp [opened, sent, hid, transaction?, track]
    · simp [ended, givenUp, reported_of_not_receive s (.send now r) (by simp)]
    · rw [step, sent, track]
    · rw [step, sent, track]

theorem turn_send {s : Session} (h : s.IsSound) (now : Time) (r : Request) :
    s.Turn (.send now r) := by
  by_cases hr : r.Opens
  · obtain ⟨phase, mk, unreleased, carries, sent⟩ := s.send_eq_start hr now
    exact turn_of_start h sent unreleased carries
  · obtain ⟨connection, awaitPingResp, same⟩ := s.send_of_not_opens hr now
    rcases hs : s.send now r with ⟨s', result⟩
    rw [hs] at same
    obtain rfl : s' = { s with connection, awaitPingResp } := same
    exact turn_of_untracked h hs rfl rfl fun packet e => packetIdOf_of_not_opens hr (e ▸ hs)

theorem turn_retransmit (s : Session) (now : Time) (k maxRetries : UInt16) :
    s.Turn (.retransmit now k maxRetries) := by
  have unreported := s.reported_of_not_receive (.retransmit now k maxRetries) (by simp)
  obtain ⟨-, e⟩ | ⟨t, ht, e | ⟨-, e⟩⟩ := retransmit_cases s now k maxRetries
  · exact .kept rfl (by simp [ended, givenUp, unreported, e]) (by simp [step, e])
      fun j => by rw [step, e]
  · refine .ended ht (show Ending.expired.Fits t from trivial) rfl ?_ ?_ ?_
    all_goals simp [ended, givenUp, unreported, step, e, forget]
  · refine .kept rfl (by simp [ended, givenUp, unreported, e]) (by simp [step, e]) fun j => ?_
    simp only [step, e, Std.TreeMap.getElem?_insert, Std.LawfulEqCmp.compare_eq_iff_eq]
    split
    · next e' =>
      subst e'
      simp [ht, Transaction.content]
    · rfl

theorem turn_forget (s : Session) (k : UInt16) : s.Turn (.forget k) := by
  have unreported := s.reported_of_not_receive (.forget k) (by simp)
  cases ht : s.outgoing[k]? with
  | some t =>
    exact .ended ht (show Ending.forgotten.Fits t from trivial) rfl
      (by simp [ended, givenUp, unreported, transaction?, ht]) rfl rfl
  | none =>
    refine .kept rfl (by simp [ended, givenUp, unreported, transaction?, ht]) rfl fun j => ?_
    simp only [step, forget, Std.TreeMap.getElem?_erase, Std.LawfulEqCmp.compare_eq_iff_eq]
    split
    · next e' => simp [← e', ht]
    · rfl

theorem turn_of_step {s : Session} (h : s.IsSound) (op : Operation) : s.Turn op := by
  have quiet : ∀ op, (∀ now p, op ≠ .receive now p) → s.opened op = [] → s.givenUp op = [] →
      (s.step op).lastOrder = s.lastOrder → (s.step op).outgoing = s.outgoing → s.Turn op := by
    intro op other opened_eq givenUp_eq lastOrder_eq outgoing_eq
    refine .kept opened_eq ?_ lastOrder_eq fun k => by rw [outgoing_eq]
    simp [ended, reported_of_not_receive s op other, givenUp_eq]
  cases op with
  | send now r => exact turn_send h now r
  | receive now p => exact turn_receive s now p
  | replay now =>
    refine .kept rfl ?_ rfl fun k => ?_
    · simp [ended, givenUp, reported_of_not_receive s (.replay now) (by simp)]
    · rw [step, getElem?_replay, Option.map_map]
      rfl
  | retransmit now k maxRetries => exact turn_retransmit s now k maxRetries
  | forget k => exact turn_forget s k
  | clean =>
    refine .cleaned rfl ?_ rfl rfl
    simp [ended, givenUp, reported_of_not_receive s .clean (by simp)]
  | connecting =>
    have same : (s.step .connecting).lastOrder = s.lastOrder ∧
        (s.step .connecting).outgoing = s.outgoing := by
      simp only [step, connecting]
      split <;> exact ⟨rfl, rfl⟩
    exact quiet _ (by simp) rfl rfl same.1 same.2
  | disconnecting | disconnected | takeEvents => exact quiet _ (by simp) rfl rfl rfl rfl

end Session

end MqttClient
