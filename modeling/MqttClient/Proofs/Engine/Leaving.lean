import MqttClient.Proofs.Engine.Stale

/-! Leaving the broker for good. From wherever a client leaves, nothing of its session stays behind,
and whatever the world still has to say about it changes nothing until the client connects again. -/

namespace MqttClient

def Command.isConnect : Command → Bool
  | .connect .. => true
  | _ => false

namespace Engine

structure Idle (e : Engine) : Prop where
  connection_eq : e.session.connection = .disconnected
  link_eq : e.link = none
  opening_eq : e.opening = false
  timers_eq : e.timers = {}
  supervisor_eq : e.supervisor = none
  connectCall_eq : e.connectCall = none
  pending_eq : e.pending = {}
  backlog_eq : e.backlog = []
  events_eq : e.session.events = []
  subscriptions_eq : e.subscriptions = {}
  outgoing_eq : e.session.outgoing = {}
  received_eq : e.session.received = {}
  awaitPingResp_eq : e.session.awaitPingResp = false

/-- The sockets that were asked for, and those that came, are of earlier epochs. -/
structure Spent (past : List Command) (e : Engine) : Prop where
  attempt_lt : ∀ {epoch : Nat} {host : String} {port : UInt16},
    .attempt epoch host port ∈ e.effects → epoch < e.epoch
  opened_lt : ∀ {epoch : Nat}, (∃ c ∈ past, c.Opens epoch) → epoch < e.epoch

structure Embarks (e : Engine) (call : CallId) (config : Config) (d : Engine) : Prop where
  connection_eq : d.session.connection = .connecting
  opening_eq : d.opening = true
  connectCall_eq : d.connectCall = some call
  config_eq : d.config = some config
  effects_eq : d.effects = e.effects ++ [.attempt d.epoch config.host config.port]

section

variable {past past₁ : List Command} {e d : Engine} {c : Command}

theorem mem_partings {waiting : CallId} (waits : 0 < e.held waiting) :
    .answer waiting (.error .disconnected) ∈ e.partings := by
  refine List.mem_map.2 ⟨waiting, ?_, rfl⟩
  simp only [List.mem_append, Option.mem_toList, List.mem_filterMap, List.mem_map]
  by_cases opens : e.connectCall = some waiting
  · exact .inl (.inl opens)
  · by_cases pends : e.pending.toList.countP (·.2.call? == some waiting) = 0
    · have queued : 0 < e.backlog.countP (·.id == waiting) := by
        simpa [held, opens, pends] using waits
      obtain ⟨call, hc, is⟩ := List.countP_pos_iff.1 queued
      exact .inr ⟨call, hc, eq_of_beq is⟩
    · obtain ⟨⟨k, p⟩, hp, is⟩ := List.countP_pos_iff.1 (Nat.pos_of_ne_zero pends)
      refine .inl (.inr ⟨p, ?_, eq_of_beq is⟩)
      rw [Listing.values_eq_map_toList]
      exact List.mem_map.2 ⟨_, hp, rfl⟩

theorem idle_departed (events : e.session.events = []) (lastOutgoing : Time) (out : List Effect) :
    Idle { e.departed lastOutgoing with effects := out } := by
  constructor
  case events_eq => exact events
  all_goals rfl

theorem Reachable.spent_disconnect (h : Reachable past e) (call : CallId)
    (reason : DisconnectReason) :
    Spent (past ++ [.disconnect call reason]) (e.handle (.disconnect call reason)) := by
  have ledger := h.accounted.settled.ledger
  obtain ⟨said, lastOutgoing, farewell, -, -, he⟩ := e.disconnect_eq reason
  have left : (e.handle (.disconnect call reason)).epoch = e.epoch + 1 := by
    rw [Engine.handle, succeed, emit, he]
    rfl
  have effects : (e.handle (.disconnect call reason)).effects
      = e.effects ++ said ++ e.partings ++ [.answer call (.ok .disconnected)] := by
    rw [Engine.handle, succeed, emit, he]
  constructor
  · intro epoch host port asked
    rw [effects] at asked
    simp only [List.mem_append, List.mem_singleton, reduceCtorEq, or_false] at asked
    obtain (before | now) | now := asked
    · have le := ledger.attempt_le before
      omega
    · cases farewell <;> simp at now
    · obtain ⟨_, -, eq⟩ := List.mem_map.1 now
      cases eq
  · rintro epoch ⟨c, hc, opens⟩
    obtain before | rfl := List.mem_append.1 hc |>.imp_right List.mem_singleton.1
    · have le := ledger.opened_le ⟨c, before, opens⟩
      omega
    · obtain ⟨room, eq⟩ := opens
      cases eq

theorem Idle.congr (h : Idle e) (session : d.session = e.session) (link : d.link = e.link)
    (opening : d.opening = e.opening) (timers : d.timers = e.timers)
    (supervisor : d.supervisor = e.supervisor) (connectCall : d.connectCall = e.connectCall)
    (pending : d.pending = e.pending) (backlog : d.backlog = e.backlog)
    (subscriptions : d.subscriptions = e.subscriptions) : Idle d where
  connection_eq := session ▸ h.connection_eq
  link_eq := link.trans h.link_eq
  opening_eq := opening.trans h.opening_eq
  timers_eq := timers.trans h.timers_eq
  supervisor_eq := supervisor.trans h.supervisor_eq
  connectCall_eq := connectCall.trans h.connectCall_eq
  pending_eq := pending.trans h.pending_eq
  backlog_eq := backlog.trans h.backlog_eq
  events_eq := session ▸ h.events_eq
  subscriptions_eq := subscriptions.trans h.subscriptions_eq
  outgoing_eq := session ▸ h.outgoing_eq
  received_eq := session ▸ h.received_eq
  awaitPingResp_eq := session ▸ h.awaitPingResp_eq

theorem Idle.drift (h : Idle e) (drifts : Drifts e d) : Idle d := by
  cases drifts with
  | room room => exact h.congr rfl (by simp [h.link_eq]) rfl rfl rfl rfl rfl rfl rfl
  | _ => exact h.congr rfl rfl rfl rfl rfl rfl rfl rfl rfl

theorem Idle.handle_eq_self (h : Idle e) (spent : Spent past e) (possible : Possible past e c)
    (uncalled : c.call? = none) : e.handle c = e := by
  cases c with
  | connect | call | disconnect => cases uncalled
  | cancel call =>
    have nobody : e.pending.toList = [] := by
      rw [h.pending_eq]
      rfl
    have unqueued : e.backlog.filter (·.id != call) = e.backlog := by simp [h.backlog_eq]
    rw [handle, cancelCall, nobody]
    simp only [List.find?_nil, unqueued]
  | opened epoch result =>
    obtain ⟨host, port, asked⟩ := possible.asked epoch result rfl
    exact handle_of_epoch_ne rfl (Nat.ne_of_lt (spent.attempt_lt asked))
  | incoming epoch packet =>
    have opened := possible.connected epoch packet rfl
    exact handle_of_epoch_ne rfl (Nat.ne_of_lt (spent.opened_lt opened))
  | networkDown epoch err =>
    rw [handle]
    split
    · unfold networkDown
      split
      all_goals
        try rw [sendDisconnect_of_unlinked h.link_eq]
        exact connectionLost_of_gone h.connection_eq h.link_eq _
    · rfl
  | timer timer id =>
    refine handle_of_not_running fun b runs => ?_
    rw [h.timers_eq] at runs
    cases (get?_empty timer).symm.trans runs

/-- What a command that is no call to connect comes to: it is answered, if it is a call. -/
structure Lingers (c : Command) (e d : Engine) : Prop where
  idle : Idle d
  epoch_le : e.epoch ≤ d.epoch
  effects : ∃ out, d.effects = e.effects ++ out ∧
    ∀ x ∈ out, ∃ call outcome, c.call? = some call ∧ x = .answer call outcome

theorem Idle.handle (h : Idle e) (spent : Spent past e) (possible : Possible past e c)
    (other : c.isConnect = false) : Lingers c e (e.handle c) := by
  cases c with
  | connect => cases other
  | call call =>
    have refused : e.handle (.call call) = e.fail call.id .notConnected := by
      simp [Engine.handle, request, isConnected, h.connection_eq, h.supervisor_eq]
    rw [refused]
    exact ⟨h.congr rfl rfl rfl rfl rfl rfl rfl rfl rfl, Nat.le_refl _,
      [_], rfl, List.forall_mem_singleton.2 ⟨_, _, rfl, rfl⟩⟩
  | disconnect call reason =>
    obtain ⟨said, lastOutgoing, -, unsaid, -, he⟩ := e.disconnect_eq reason
    have none : e.partings = [] := by
      simp only [partings, h.connectCall_eq, h.pending_eq, h.backlog_eq]
      rfl
    rw [unsaid h.link_eq, none] at he
    rw [Engine.handle, he]
    refine ⟨?_, ?_, [.answer call (.ok .disconnected)], ?_, ?_⟩
    · exact idle_departed h.events_eq lastOutgoing _
    · exact Nat.le_succ _
    · simp [succeed, emit]
    · exact List.forall_mem_singleton.2 ⟨_, _, rfl, rfl⟩
  | _ =>
    rw [h.handle_eq_self spent possible rfl]
    exact ⟨h, Nat.le_refl _, [], (List.append_nil _).symm, List.forall_mem_nil _⟩

theorem Lingers.spent (h : Lingers c e d) (spent : Spent past e) (possible : Possible past e c) :
    Spent (past ++ [c]) d := by
  have le := h.epoch_le
  obtain ⟨out, effects, answers⟩ := h.effects
  constructor
  · intro epoch host port asked
    rw [effects] at asked
    obtain before | now := List.mem_append.1 asked
    · exact Nat.lt_of_lt_of_le (spent.attempt_lt before) le
    · obtain ⟨call, outcome, -, eq⟩ := answers _ now
      cases eq
  · rintro epoch ⟨c', hc, opens⟩
    obtain before | rfl := List.mem_append.1 hc |>.imp_right List.mem_singleton.1
    · exact Nat.lt_of_lt_of_le (spent.opened_lt ⟨c', before, opens⟩) le
    · obtain ⟨room, rfl⟩ := opens
      obtain ⟨host, port, asked⟩ := possible.asked epoch (.ok room) rfl
      exact Nat.lt_of_lt_of_le (spent.attempt_lt asked) le

theorem Idle.leads (h : Idle d) (spent : Spent past₁ d) (leads : Leads past₁ d past e) :
    ∃ late, past = past₁ ++ late ∧ ((∀ c ∈ late, c.isConnect = false) →
      Idle e ∧ Spent past e ∧ ∃ out, e.effects = d.effects ++ out ∧
        ∀ x ∈ out, ∃ c ∈ late, ∃ call outcome, c.call? = some call ∧ x = .answer call outcome) := by
  induction leads with
  | refl =>
    exact ⟨[], (List.append_nil _).symm, fun _ =>
      ⟨h, spent, [], (List.append_nil _).symm, List.forall_mem_nil _⟩⟩
  | @handle past e c leads possible ih =>
    obtain ⟨late, rfl, stays⟩ := ih
    refine ⟨late ++ [c], List.append_assoc .., fun other => ?_⟩
    obtain ⟨idle, spent, out, effects, answers⟩ :=
      stays fun c' hc => other c' (List.mem_append_left _ hc)
    have lingers := idle.handle spent possible (other c (by simp))
    obtain ⟨out', effects', answers'⟩ := lingers.effects
    refine ⟨lingers.idle, lingers.spent spent possible, out ++ out', ?_, fun x hx => ?_⟩
    · rw [effects', effects, List.append_assoc]
    · obtain before | now := List.mem_append.1 hx
      · obtain ⟨c', hc, answer⟩ := answers x before
        exact ⟨c', List.mem_append_left _ hc, answer⟩
      · exact ⟨c, by simp, answers' x now⟩
  | drift _ drifts ih =>
    obtain ⟨late, rfl, stays⟩ := ih
    refine ⟨late, rfl, fun other => ?_⟩
    obtain ⟨idle, spent, out, effects, answers⟩ := stays other
    have same := drifts.effects_eq
    exact ⟨idle.drift drifts, ⟨by rw [same, drifts.epoch_eq]; exact spent.attempt_lt,
      by rw [drifts.epoch_eq]; exact spent.opened_lt⟩, out, same.trans effects, answers⟩

theorem Idle.embarks (h : Idle e) (call : CallId) (config : Config) :
    Embarks e call config (e.handle (.connect call config)) := by
  have started : e.handle (.connect call config) = (startAttempt
      { e.withSession { e.session with maxInflight := config.inflight } with
        keepAlive := config.keepAlive
        config := some config
        connectCall := some call }) := by
    simp [Engine.handle, connect, h.supervisor_eq, h.connection_eq]
  rw [started]
  simp only [startAttempt, withSession, Session.connecting, h.connection_eq, if_true]
  constructor <;> rfl

/-- A client that leaves its broker is idle, whatever went on before. Every call that waited is
told, and until the client connects again nothing is written and no socket is asked for, whatever
comes late. Then the client connects. -/
theorem idle_of_disconnect (run : Reachable past e) (call : CallId) (reason : DisconnectReason) :
    let c : Command := .disconnect call reason
    Idle (e.handle c) ∧
    (∃ out, (e.handle c).effects = e.effects ++ out ∧ .answer call (.ok .disconnected) ∈ out ∧
      ∀ waiting, 0 < e.held waiting → .answer waiting (.error .disconnected) ∈ out) ∧
    ∀ late d, Leads (past ++ [c]) (e.handle c) (past ++ [c] ++ late) d →
      (∀ c' ∈ late, c'.isConnect = false) →
      Idle d ∧
      (∃ out, d.effects = (e.handle c).effects ++ out ∧ ∀ x ∈ out, ∃ c' ∈ late,
        ∃ id outcome, c'.call? = some id ∧ x = .answer id outcome) ∧
      ∀ id config, Embarks d id config (d.handle (.connect id config)) := by
  intro c
  obtain ⟨said, lastOutgoing, -, -, -, he⟩ := e.disconnect_eq reason
  have idle : Idle (e.handle c) := by
    simp only [c, Engine.handle, he]
    exact idle_departed run.accounted.settled.ledger.events_eq lastOutgoing _
  refine ⟨idle, ⟨said ++ e.partings ++ [.answer call (.ok .disconnected)], ?_, by simp, ?_⟩, ?_⟩
  · simp [c, Engine.handle, he, succeed, emit]
  · intro waiting waits
    have told := mem_partings waits
    simp [told]
  · intro late d leads other
    obtain ⟨late', same, stays⟩ := idle.leads (run.spent_disconnect call reason) leads
    cases List.append_cancel_left same
    obtain ⟨idle', -, out, effects, answers⟩ := stays other
    exact ⟨idle', ⟨out, effects, answers⟩, idle'.embarks⟩

end

def afterwards : List Command :=
  [.timer (.ack 1) 3, .incoming 1 (.pubAck { packetId := 1, reason := .success }),
    .networkDown 1 .connectionClosed, .cancel 1]

theorem idle_sentOnce :
    let e := sentOnce.foldl handle {}
    let c : Command := .disconnect 2 .normalDisconnection
    let d := afterwards.foldl handle (e.handle c)
    0 < e.held 1 ∧ Idle (e.handle c) ∧ Idle d ∧
      ∀ id config, Embarks d id config (d.handle (.connect id config)) := by
  intro e c d
  have run : Reachable sentOnce e := reachable_of_isRun (by decide +kernel)
  have leads : Leads (sentOnce ++ [c]) (e.handle c) (sentOnce ++ [c] ++ afterwards) d :=
    Leads.refl.append (by decide +kernel)
  obtain ⟨idle, -, after⟩ := idle_of_disconnect run 2 .normalDisconnection
  obtain ⟨idle', -, embarks⟩ := after afterwards d leads (by decide)
  exact ⟨by decide +kernel, idle, idle', embarks⟩

end Engine

end MqttClient
