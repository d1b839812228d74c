import MqttClient.Proofs.Session.Endings

/-! Exactly-once messages of the broker, over any history of a session. Which messages are handed on
and how releases are answered goes by the history alone: by the messages that were taken under an
identifier and by what freed it since. The open transactions of the client have no part in it, not
even those with the same identifier. -/

namespace MqttClient

namespace Session

def Acquires (s : Session) (op : Operation) (k : UInt16) : Prop :=
  s.connection ≠ .connecting ∧
    ∃ now p, op = .receive now (.publish p) ∧ p.qos = .exactlyOnce ∧ p.packetId = k

def Operation.Releases (op : Operation) (k : UInt16) : Prop :=
  op = .clean ∨ ∃ now a, op = .receive now (.pubRel a) ∧ a.packetId = k

/-- A message of that identifier was taken after everything that freed the identifier. -/
def HalfReceived (past : List (Session × Operation)) (k : UInt16) : Prop :=
  ∃ before x after, past = before ++ x :: after ∧ x.1.Acquires x.2 k ∧ ∀ y ∈ after, ¬ y.2.Releases k

theorem not_halfReceived_nil (k : UInt16) : ¬ HalfReceived [] k := by
  rintro ⟨before, x, after, split, -⟩
  simp at split

theorem halfReceived_concat {past : List (Session × Operation)} {s : Session} {op : Operation}
    {k : UInt16} :
    HalfReceived (past ++ [(s, op)]) k ↔
      s.Acquires op k ∨ (HalfReceived past k ∧ ¬ op.Releases k) := by
  constructor
  · rintro ⟨before, x, after, split, acquires, kept⟩
    obtain ⟨-, rfl, -⟩ | ⟨after, rfl, rfl⟩ := Listing.concat_eq_append_cons_iff.1 split
    · exact .inl acquires
    · exact .inr ⟨⟨before, x, after, rfl, acquires, fun y hy => kept y (by simp [hy])⟩,
        kept (s, op) (by simp)⟩
  · rintro (acquires | ⟨⟨before, x, after, rfl, acquires, kept⟩, last⟩)
    · exact ⟨past, (s, op), [], rfl, acquires, List.forall_mem_nil _⟩
    · refine ⟨before, x, after ++ [(s, op)], by simp, acquires, fun y hy => ?_⟩
      rcases List.mem_append.1 hy with hy | hy
      · exact kept y hy
      · cases List.mem_singleton.1 hy
        exact last

theorem received_receive_of_other (s : Session) (now : Time) {packet : Packet}
    (publish : ∀ p, packet ≠ .publish p) (pubRel : ∀ a, packet ≠ .pubRel a) :
    (s.receive now packet).1.received = s.received := by
  have complete : ∀ (s : Session) (k : UInt16) (fits : Transaction → Bool) (e : Event),
      (s.complete k fits e).received = s.received := by
    intro s k fits e
    obtain ⟨-, he⟩ | ⟨t, -, -, he⟩ := s.complete_cases k fits e
    all_goals rw [he]
    rfl
  cases packet with
  | publish p => exact absurd rfl (publish p)
  | pubRel a => exact absurd rfl (pubRel a)
  | connAck p =>
    simp only [receive, receiveConnAck]
    split
    · split <;> rfl
    · rfl
  | pubAck a => exact complete _ _ _ _
  | pubRec a =>
    simp only [receive, receivePubRec]
    split
    · split
      · split <;> rfl
      · rfl
    · rfl
  | pubComp a => exact complete _ _ _ _
  | subAck p => exact complete _ _ _ _
  | unsubAck p => exact complete _ _ _ _
  | _ => rfl

theorem received_receive_publish (s : Session) (now : Time) (p : Publish) (k : UInt16) :
    (s.receive now (.publish p)).1.received.contains k =
      (s.received.contains k ||
        decide (s.connection ≠ .connecting ∧ p.qos = .exactlyOnce ∧ p.packetId = k)) := by
  by_cases hc : s.connection = .connecting
  · simp [receive, receivePublish, hc]
  · cases hq : p.qos with
    | exactlyOnce =>
      obtain ⟨r, he, -, -, received⟩ := receive_publish_exactlyOnce hc now hq
      rw [he, received]
      simp [hc]
    | _ => simp [receive, receivePublish, hc, hq, push]

theorem received_receive_pubRel (s : Session) (now : Time) (a : Ack ReleaseReason) (k : UInt16) :
    (s.receive now (.pubRel a)).1.received.contains k =
      (s.received.contains k && !decide (a.packetId = k)) := by
  obtain ⟨r, reason, he, -, -, received⟩ := s.receive_pubRel now a
  rw [he, received]

theorem received_send (s : Session) (now : Time) (r : Request) :
    (s.send now r).1.received = s.received := by
  rcases hs : s.send now r with ⟨s', e | packet⟩
  · rw [send_eq_error hs]
  · by_cases hr : r.Opens
    · obtain ⟨k, phase, -, -, -, rfl⟩ := send_of_opens hr hs
      rfl
    · obtain ⟨connection, awaitPingResp, same⟩ := s.send_of_not_opens hr now
      rw [hs] at same
      rw [same]

theorem contains_step (s : Session) (op : Operation) (k : UInt16) :
    (s.step op).received.contains k = true ↔
      s.Acquires op k ∨ (s.received.contains k = true ∧ ¬ op.Releases k) := by
  have other : ∀ op, ¬ s.Acquires op k → ¬ op.Releases k →
      (s.step op).received = s.received → ((s.step op).received.contains k = true ↔
        s.Acquires op k ∨ (s.received.contains k = true ∧ ¬ op.Releases k)) := by
    intro op idle kept same
    simp [idle, kept, same]
  cases op with
  | receive now packet =>
    cases packet with
    | publish p => simp [step, received_receive_publish, Acquires, Operation.Releases, or_comm]
    | pubRel a => simp [step, received_receive_pubRel, Acquires, Operation.Releases]
    | _ =>
      refine other _ (by simp [Acquires]) (by simp [Operation.Releases]) ?_
      rw [step, received_receive_of_other s now (by simp) (by simp)]
  | clean => simp [step, clean, Acquires, Operation.Releases]
  | send now r =>
    exact other _ (by simp [Acquires]) (by simp [Operation.Releases]) (s.received_send now r)
  | retransmit now j maxRetries =>
    refine other _ (by simp [Acquires]) (by simp [Operation.Releases]) ?_
    obtain ⟨-, e⟩ | ⟨t, -, e | ⟨-, e⟩⟩ := retransmit_cases s now j maxRetries
    all_goals rw [step, e]
    rfl
  | connecting =>
    refine other _ (by simp [Acquires]) (by simp [Operation.Releases]) ?_
    simp only [step, connecting]
    split <;> rfl
  | _ => exact other _ (by simp [Acquires]) (by simp [Operation.Releases]) rfl

theorem contains_run {past : List (Session × Operation)} {s : Session} {k : UInt16}
    (h : s.received.contains k = true ↔ HalfReceived past k) (ops : List Operation) :
    (s.run ops).received.contains k = true ↔ HalfReceived (past ++ s.history ops) k := by
  induction ops generalizing past s with
  | nil => simpa [history, run] using h
  | cons op ops ih =>
    have next : (s.step op).received.contains k = true ↔ HalfReceived (past ++ [(s, op)]) k := by
      rw [contains_step, halfReceived_concat, h]
    simpa [history, run] using ih next

theorem contains_new_run (maxInflight : UInt16) (ops : List Operation) (k : UInt16) :
    ((new maxInflight).run ops).received.contains k = true ↔
      HalfReceived ((new maxInflight).history ops) k := by
  have start : (new maxInflight).received.contains k = true ↔ HalfReceived [] k := by
    simp [new, not_halfReceived_nil]
  exact contains_run start ops

theorem receive_of_message_mem_news {s : Session} {op : Operation} {m : Publish}
    (hm : .message m ∈ s.news op) : ∃ now, op = .receive now (.publish m) := by
  by_cases hop : ∃ now packet, op = .receive now packet
  · obtain ⟨now, packet, rfl⟩ := hop
    exact ⟨now, congrArg _ (packet_of_news hm).symm⟩
  · rw [news_of_not_receive fun now packet e => hop ⟨now, packet, e⟩] at hm
    cases hm

/-- The session after a history, seen by a broker with exactly-once messages. -/
structure DeliversOnce (past : List (Session × Operation)) (s : Session) : Prop where
  refused : ∀ now p, p.qos = .exactlyOnce → s.connection = .connecting →
    (s.receive now (.publish p)).2 = .error .wrongPacket ∧ s.news (.receive now (.publish p)) = []
  acknowledged : ∀ now p, p.qos = .exactlyOnce → s.connection ≠ .connecting →
    (s.receive now (.publish p)).2 =
      .ok (some (.pubRec { packetId := p.packetId, reason := .success }))
  fresh : ∀ now p, p.qos = .exactlyOnce → s.connection ≠ .connecting →
    ¬ HalfReceived past p.packetId → s.news (.receive now (.publish p)) = [.message p]
  repeated : ∀ now p, p.qos = .exactlyOnce → s.connection ≠ .connecting →
    HalfReceived past p.packetId → s.news (.receive now (.publish p)) = []
  released : ∀ now a, HalfReceived past a.packetId → (s.receive now (.pubRel a)).2 =
    .ok (some (.pubComp { packetId := a.packetId, reason := .success }))
  unknown : ∀ now a, ¬ HalfReceived past a.packetId → (s.receive now (.pubRel a)).2 =
    .ok (some (.pubComp { packetId := a.packetId, reason := .packetIdentifierNotFound }))
  origin : ∀ op m, .message m ∈ s.news op → ∃ now, op = .receive now (.publish m)
  untouched : ∀ op k, ¬ s.Acquires op k → ¬ op.Releases k →
    (s.step op).received.contains k = s.received.contains k

theorem delivers_once_of_run (maxInflight : UInt16) (ops : List Operation) :
    DeliversOnce ((new maxInflight).history ops) ((new maxInflight).run ops) := by
  have remembered := contains_new_run maxInflight ops
  generalize (new maxInflight).run ops = s at *
  constructor
  case refused =>
    intro now p hq hc
    simp [news, step, receive, receivePublish, hc]
  case acknowledged =>
    intro now p hq hc
    obtain ⟨r, he, -⟩ := receive_publish_exactlyOnce hc now hq
    rw [he]
  case fresh =>
    intro now p hq hc new
    obtain ⟨r, he, -, events, -⟩ := receive_publish_exactlyOnce hc now hq
    rw [← remembered] at new
    simp [news, step, he, events, new]
  case repeated =>
    intro now p hq hc half
    obtain ⟨r, he, -, events, -⟩ := receive_publish_exactlyOnce hc now hq
    rw [← remembered] at half
    simp [news, step, he, events, half]
  case released =>
    intro now a half
    rw [← remembered] at half
    simp [receive, receivePubRel, half]
  case unknown =>
    intro now a none
    rw [← remembered] at none
    simp [receive, receivePubRel, none]
  case origin => exact fun op m => receive_of_message_mem_news
  case untouched =>
    intro op k idle kept
    rw [Bool.eq_iff_iff, contains_step]
    simp [idle, kept]

end Session

end MqttClient
