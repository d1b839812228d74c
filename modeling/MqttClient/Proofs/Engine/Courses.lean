import MqttClient.Proofs.Engine.Commands
import MqttClient.Proofs.Engine.Sending
import MqttClient.Proofs.Session.Turns

/-! What a command does to the calls that wait and to the room for them, said once: every later
argument about the window and the order of requests goes by the cases below. -/

namespace MqttClient.Engine

theorem isOld_of_isAck {p : Packet} (h : p.isAck = true) (e : Engine) : e.IsOld p := by
  refine isOld_of_not_isRequest ?_
  cases p with
  | publish | subscribe | unsubscribe => cases h
  | _ => rfl

theorem asRequest_resend {t : Transaction} {k : UInt16} (fits : t.Fits k) (e : Engine) :
    e.asRequest t.resend =
      if t.phase = .released then none
      else some (e.pending[k]?.bind Pending.call?, t.resend) := by
  obtain ⟨p, phase, -, hid, hq, he⟩ | ⟨p, phase, -, -, he⟩ | ⟨p, phase, -, hid, he⟩ |
    ⟨p, phase, -, hid, he⟩ := fits.resend_cases
  all_goals rw [he, phase]
  · simp [asRequest, Packet.isRequest, requester, hid, hq]
  · rfl
  · simp [asRequest, Packet.isRequest, requester, hid]
  · simp [asRequest, Packet.isRequest, requester, hid]

theorem Agrees.exists_pending {p : Option Pending} {t : Transaction} (h : Agrees p (some t)) :
    ∃ q, p = some q := by
  cases p with
  | none => exact absurd h id
  | some q => exact ⟨q, rfl⟩

theorem isOld_resend {e : Engine} {k : UInt16} {t : Transaction} {p : Pending}
    (hp : e.pending[k]? = some p) (ht : e.session.outgoing[k]? = some t) (fits : t.Fits k) :
    e.IsOld t.resend := by
  intro r hr
  rw [asRequest_resend fits, hp, Option.bind_some] at hr
  split at hr
  · cases hr
  · next phase =>
    cases hr
    exact ⟨k, p, t, hp, rfl, ht, phase, .inr rfl⟩

/-- Every request that may go out again has gone out. -/
def AllSent (e : Engine) : Prop := ∀ {call packet}, e.Repeats (some call) packet → call ∈ e.asked

/-- The broker accepts the session with that packet, and what waited waits on. -/
structure Opens (config : Config) (p : ConnAck) (e d : Engine) : Prop extends Wanes e d where
  connecting : e.session.connection = .connecting
  configured : e.config = some config
  connected : d.session.connection = .connected
  epoch_eq : d.epoch = e.epoch
  config_eq : d.config = e.config
  maxInflight_eq : d.session.maxInflight = agreedInflight config p
  subscriptions_eq : d.subscriptions = e.subscriptions

section

variable {w : World} {owed : CallId → Nat} {e d m : Engine} {config : Config} {p : ConnAck}

theorem Opens.writes (h : Opens config p e d) {out : List (Option CallId × Packet)}
    (h' : Writes d out m) (repeats : ∀ r ∈ out, d.Repeats r.1 r.2) : Opens config p e m :=
  { h with
    toWanes := h.toWanes.trans (h'.wanes repeats)
    connected := (connection_eq_of_terms h'.terms_eq).trans h.connected
    epoch_eq := (congrArg Terms.epoch h'.terms_eq).trans h.epoch_eq
    config_eq := h'.config_eq.trans h.config_eq
    maxInflight_eq := (congrArg Terms.maxInflight h'.terms_eq).trans h.maxInflight_eq
    subscriptions_eq := h'.subscriptions_eq.trans h.subscriptions_eq }

theorem rests_replay (e : Engine) : Rests e (e.withSession (e.session.replay e.now).1) := by
  have size : (e.session.replay e.now).1.outgoing.size = e.session.outgoing.size :=
    Std.TreeMap.size_map
  refine ⟨⟨⟨Nat.le_of_eq size, id, ?_, .refl _, [], ?_, List.forall_mem_nil _⟩, rfl, fun _ => rfl⟩,
    fun _ => size⟩
  · rintro call packet ⟨k, q, t, hq, hc, ht, sends⟩
    rw [withSession, Session.getElem?_replay, Option.map_eq_some_iff] at ht
    obtain ⟨u, hu, rfl⟩ := ht
    exact ⟨k, q, u, hq, hc, hu, sends⟩
  · rw [List.append_nil]
    rfl

theorem isOld_of_mem_replay (sound : d.session.IsSound)
    (agrees : ∀ k : UInt16, Agrees d.pending[k]? d.session.outgoing[k]?) {packet : Packet}
    (hm : packet ∈ (d.session.replay d.now).2) :
    (d.withSession (d.session.replay d.now).1).IsOld packet := by
  obtain ⟨k, t, ht, rfl⟩ := Session.mem_replay.1 hm
  obtain ⟨q, hq⟩ := (ht ▸ agrees k).exists_pending
  let touched : Transaction := { t with retries := 0, lastSent := d.now }
  have held : (d.session.replay d.now).1.outgoing[k]? = some touched := by
    rw [Session.getElem?_replay, ht, Option.map_some]
  exact isOld_resend (e := d.withSession (d.session.replay d.now).1) (t := touched) hq held
    ((sound.fits ht).touch 0 d.now)

theorem allSent_of_replay (sound : d.session.IsSound)
    (h : Writes (d.withSession (d.session.replay d.now).1)
      ((d.session.replay d.now).2.filterMap d.asRequest) m) : m.AllSent := by
  intro call packet again
  obtain ⟨k, q, t, hq, hcall, ht, phase, -⟩ :=
    d.rests_replay.repeats (h.repeats_iff.1 again)
  have asks : d.asRequest t.resend = some (some call, t.resend) := by
    rw [asRequest_resend (sound.fits ht), if_neg phase, hq, Option.bind_some, hcall]
  have sent : (some call, t.resend) ∈ m.requests := by
    rw [h.requests_eq]
    exact List.mem_append_right _ (List.mem_filterMap.2
      ⟨t.resend, Session.mem_replay.2 ⟨k, t, ht, rfl⟩, asks⟩)
  exact List.mem_filterMap.2 ⟨_, sent, rfl⟩

theorem resume_of_replayed {ackTimeout : Duration}
    (he : (e.withSession (e.session.replay e.now).1).replayAll ackTimeout (e.session.replay e.now).2
      = (d, true)) : e.resume ackTimeout = d.resubscribe.drainBacklog := by
  simp only [resume, he]

theorem resume_of_lost {ackTimeout : Duration}
    (he : (e.withSession (e.session.replay e.now).1).replayAll ackTimeout (e.session.replay e.now).2
      = (d, false)) : e.resume ackTimeout = d := by
  simp only [resume, he]

theorem Opens.resume (h : Opens config p e d) (sound : d.session.IsSound)
    (agrees : ∀ k : UInt16, Agrees d.pending[k]? d.session.outgoing[k]?) (ackTimeout : Duration) :
    (∃ m, Opens config p e m ∧ m.AllSent ∧ d.resume ackTimeout = m.resubscribe.drainBacklog) ∨
    Rests e (d.resume ackTimeout) := by
  let taken := d.withSession (d.session.replay d.now).1
  have opens : Opens config p e taken :=
    { h with
      toWanes := h.toWanes.trans d.rests_replay.toWanes
      connected := h.connected
      maxInflight_eq := h.maxInflight_eq }
  have old : ∀ packet ∈ (d.session.replay d.now).2, taken.IsOld packet :=
    fun _ => isOld_of_mem_replay sound agrees
  obtain ⟨m, he, written⟩ | ⟨m, he, lost, gone⟩ :=
    taken.replayAll_writes ackTimeout (d.session.replay d.now).2 old
  · have repeats : ∀ r ∈ (d.session.replay d.now).2.filterMap taken.asRequest,
        taken.Repeats r.1 r.2 := by
      intro r hr
      obtain ⟨packet, hm, hp⟩ := List.mem_filterMap.1 hr
      exact old packet hm r hp
    exact .inl ⟨m, opens.writes written repeats, allSent_of_replay sound written,
      resume_of_replayed he⟩
  · have config : m.config = e.config := lost.config_eq.trans opens.config_eq
    rw [resume_of_lost he]
    exact .inr ((opens.toWanes.trans lost.toWanes).rests config gone)

theorem SettledBut.opens (h : Settled w owed e) (hc : e.session.connection = .connecting)
    (p : ConnAck) :
    let d := (e.withSession { e.session with connection := .connected }).connected p
    (∃ config, e.connectCall.isSome ∧ e.session.inflight = 0 ∧ Opens config p e d ∧ d.AllSent) ∨
    (∃ config m, e.connectCall = none ∧ Opens config p e m ∧ m.AllSent ∧
      d = m.resubscribe.drainBacklog) ∨
    Rests e d := by
  obtain ⟨config, he⟩ := Option.isSome_iff_exists.1 (h.posture.config_isSome (by simp [hc]))
  let e₁ := e.withSession { e.session with connection := .connected }
  obtain ⟨timers, lastTimerId, stableAfter, -, ⟨call, hcall, heq⟩ | ⟨hcall, heq⟩⟩ :=
    connected_cases (e := e₁) he (h.unarmed hc) p
  all_goals
    change _ ∨ _ ∨ Rests e (e₁.connected p)
    rw [heq]
  · have waiting : e.connectCall.isSome := Option.isSome_iff_exists.2 ⟨call, hcall⟩
    have empty : e.session.outgoing.isEmpty := by
      refine Std.TreeMap.isEmpty_iff_forall_not_mem.2 fun k => ?_
      rw [Std.TreeMap.mem_iff_isSome_getElem?, h.posture.fresh waiting k]
      simp
    let greeted := ({ e₁.established config p timers lastTimerId with
      connectCall := none } : Engine).supervise config.reconnect stableAfter
    have before : Wanes e greeted := .of_eq rfl rfl rfl rfl
    have told := greeted.rests_emit (x := .answer call (.ok (.connAck p))) rfl
    have wanes := before.trans told.toWanes
    refine .inl ⟨config, waiting, ?_, ⟨wanes, hc, he, rfl, rfl, rfl, rfl, rfl⟩, ?_⟩
    · rwa [Std.TreeMap.isEmpty_eq_size_eq_zero, beq_iff_eq] at empty
    · intro id packet again
      obtain ⟨k, -, t, -, -, ht, -⟩ := wanes.repeats again
      cases (h.posture.fresh waiting k).symm.trans ht
  · let e₂ := (e₁.established config p timers lastTimerId).supervise none stableAfter
    have wanes : Wanes e e₂ := .of_eq rfl rfl rfl rfl
    have sound : e₂.session.IsSound := h.ledger.sound.congr rfl rfl
    have opens : Opens config p e e₂ := ⟨wanes, hc, he, rfl, rfl, rfl, rfl, rfl⟩
    obtain ⟨m, opened, allSent, heq'⟩ | lost := opens.resume sound h.ledger.agrees config.ackTimeout
    · exact .inr (.inl ⟨config, m, hcall, opened, allSent, heq'⟩)
    · exact .inr (.inr lost)

end

structure Attempts (c : Command) (e d : Engine) : Prop extends Wanes e d where
  disconnected : e.session.connection = .disconnected
  connecting : d.session.connection = .connecting
  supervisor_eq : d.supervisor = e.supervisor
  config_eq : d.config = e.config ∨
    ∃ call config, c = .connect call config ∧ d.config = some config

/-- What the engine becomes with a command. -/
inductive Course (e : Engine) (c : Command) : Engine → Prop
  | rests {d : Engine} (rests : Rests e d) : Course e c d
  /-- Transactions go, so that there may be room for what was held back. -/
  | drained {m d : Engine} (recedes : Recedes e m) (rests : Rests m.drainBacklog d) : Course e c d
  | requested {call : Call} (hc : c = .call call) : Course e c (e.request call false)
  | attempted {d : Engine} (attempts : Attempts c e d) : Course e c d
  | greeted {config : Config} {p : ConnAck} {m d : Engine}
    (hc : c = .incoming e.epoch (.connAck p)) (success : p.code = .success)
    (waiting : e.connectCall.isSome) (empty : e.session.inflight = 0) (opens : Opens config p e m)
    (allSent : m.AllSent) (rests : Rests m d) : Course e c d
  /-- Any later connection makes the subscriptions anew and sends what was held back. -/
  | resumed {config : Config} {p : ConnAck} {m d : Engine}
    (hc : c = .incoming e.epoch (.connAck p)) (success : p.code = .success)
    (unasked : e.connectCall = none) (opens : Opens config p e m) (allSent : m.AllSent)
    (rests : Rests m.resubscribe.drainBacklog d) : Course e c d

def Drains (e d : Engine) : Prop := ∃ m, Recedes e m ∧ d = m.drainBacklog

section

variable {w : World} {owed : CallId → Nat} {e d : Engine} {c : Command}

theorem Recedes.drains (h : Recedes e d) {f : Engine} (h' : Drains d f) : Drains e f := by
  obtain ⟨m, recedes, rfl⟩ := h'
  exact ⟨m, h.trans recedes, rfl⟩

theorem rests_fail (e : Engine) (call : CallId) (err : ClientError) : Rests e (e.fail call err) :=
  rests_emit e rfl

theorem rests_succeed (e : Engine) (call : CallId) (r : Reply) : Rests e (e.succeed call r) :=
  rests_emit e rfl

theorem drains_published (e : Engine) (k : UInt16) (ack : PublishAck) :
    Drains e (e.published k ack) := by
  have erased := (e.rests_cancelTimer (.ack k)).trans (rests_erasePending _ k)
  unfold published
  refine ⟨_, Rests.toRecedes ?_, rfl⟩
  split
  · exact erased.trans (rests_succeed _ _ _)
  · exact erased.trans (rests_failPending _ _ _)
  · exact erased

theorem drains_subscribed (e : Engine) (p : SubAck) : Drains e (e.subscribed p) := by
  have erased := (e.rests_cancelTimer (.ack p.packetId)).trans (rests_erasePending _ p.packetId)
  unfold subscribed
  refine ⟨_, Rests.toRecedes ?_, rfl⟩
  split
  · exact (erased.trans (rests_unsubscribeAll _ _)).trans (rests_succeed _ _ _)
  · exact erased.trans (rests_unsubscribeAll _ _)
  · exact erased.trans (rests_failPending _ _ _)
  · exact erased

theorem drains_unsubscribed (e : Engine) (p : UnsubAck) : Drains e (e.unsubscribed p) := by
  have erased := (e.rests_cancelTimer (.ack p.packetId)).trans (rests_erasePending _ p.packetId)
  unfold unsubscribed
  refine ⟨_, Rests.toRecedes ?_, rfl⟩
  split
  · exact erased.trans (rests_succeed _ _ _)
  · exact erased.trans (rests_failPending _ _ _)
  · exact erased

theorem rests_dispatch (e : Engine) (p : Publish) : Rests e (e.dispatch p) := by
  unfold dispatch
  generalize e.subscriptions.handlersOf p.topic = handlers
  induction handlers generalizing e with
  | nil => exact .refl e
  | cons handler rest ih => exact (rests_emit e rfl).trans (ih _)

def replied (e : Engine) : Option Packet → Engine
  | none => e
  | some packet => if e.link.isNone then e else e.writeOrLose packet

theorem rests_replied (e : Engine) {reply : Option Packet}
    (ack : ∀ packet, reply = some packet → packet.isAck = true) : Rests e (e.replied reply) := by
  cases reply with
  | none => exact .refl e
  | some packet =>
    rw [replied]
    split
    · exact .refl e
    · exact (isOld_of_isAck (ack packet rfl) e).rests_writeOrLose

theorem SettledBut.incoming_cases (h : Settled w owed e) (packet : Packet) :
    let arrived : Session := { e.session with lastIncoming := e.now }
    (∃ err, e.session.receive e.now packet = (arrived, .error err) ∧
      e.incoming packet =
        ((e.withSession arrived).sendDisconnect .protocolError).connectionLost (.session err)) ∨
    ∃ s events reply, Session.Receipt e.now arrived s events ∧
      e.session.receive e.now packet =
        ({ s with events := e.session.events ++ events }, .ok reply) ∧
      e.incoming packet = (events.foldl handleEvent (e.withSession s)).replied reply ∧
      ∀ p, events = [.connected p] → packet = .connAck p ∧ p.code = .success := by
  intro arrived
  obtain ⟨err, he⟩ | ⟨s, events, reply, hr, he⟩ :=
    Session.receive_cases h.ledger.sound e.now packet
  · exact .inl ⟨err, he, by rw [Engine.incoming, he]⟩
  · have quiet : s.events = [] := hr.events_eq.trans h.ledger.events_eq
    refine .inr ⟨s, events, reply, hr, he, ?_, ?_⟩
    · rw [Engine.incoming, he]
      change Engine.replied _ reply = _
      rw [handleEvents_eq h.ledger.events_eq quiet]
    · rintro p rfl
      have heard : .connected p ∈ (e.session.receive e.now packet).1.events := by
        rw [he]
        simp
      exact Session.accepted_of_receive h.ledger.events_eq heard

theorem SettledBut.incoming_course (h : Settled w owed e) (packet : Packet) :
    Course e (.incoming e.epoch packet) (e.incoming packet) := by
  let arrived : Session := { e.session with lastIncoming := e.now }
  have heard : Rests e (e.withSession arrived) := .of_eq rfl rfl rfl rfl rfl rfl
  have settled : Settled w owed (e.withSession arrived) := h.setSession rfl rfl rfl rfl rfl
  obtain ⟨err, he, fails⟩ | ⟨s, events, reply, hr, he, told, accepted⟩ := h.incoming_cases packet
  · rw [fails]
    exact .rests ((heard.trans (rests_sendDisconnect _ _)).trans (rests_connectionLost _ _))
  · have answered : ∀ d : Engine, Rests d (d.replied reply) := fun d =>
      d.rests_replied fun packet hp => Session.isAck_of_receive (hp ▸ he)
    have resting : ∀ {d : Engine}, Rests (e.withSession arrived) d →
        Course e (.incoming e.epoch packet) (d.replied reply) := fun rests =>
      .rests ((heard.trans rests).trans (answered _))
    have draining : ∀ {d : Engine}, Drains (e.withSession arrived) d →
        Course e (.incoming e.epoch packet) (d.replied reply) := by
      rintro d ⟨m, recedes, rfl⟩
      exact .drained (heard.toRecedes.trans recedes) (answered _)
    rw [told]
    cases hr with
    | noted received => exact resting (.of_eq rfl rfl rfl rfl rfl rfl)
    | message p received =>
      have noted : Rests (e.withSession arrived) (e.withSession { arrived with received }) :=
        .of_eq rfl rfl rfl rfl rfl rfl
      exact resting (noted.trans (rests_dispatch _ p))
    | release ht hq =>
      exact resting (rests_insert (e.withSession arrived) ht fun _ sends => absurd rfl sends.1)
    | @ended k t event ht ends =>
      have forgotten := (e.withSession arrived).recedes_forget k
      cases event with
      | published j ack => exact draining (forgotten.drains (drains_published _ j ack))
      | subscribed p => exact draining (forgotten.drains (drains_subscribed _ p))
      | unsubscribed p => exact draining (forgotten.drains (drains_unsubscribed _ p))
      | _ => exact absurd ends id
    | accepted p hc =>
      obtain ⟨rfl, success⟩ := accepted p rfl
      obtain ⟨config, waiting, empty, opens, allSent⟩ | ⟨config, m, unasked, opens, allSent, he'⟩ |
        lost := settled.opens hc p
      · exact .greeted rfl success waiting empty
          { opens with toWanes := heard.toWanes.trans opens.toWanes } allSent (answered _)
      · refine .resumed rfl success unasked
          { opens with toWanes := heard.toWanes.trans opens.toWanes } allSent ?_
        rw [← he']
        exact answered _
      · exact resting lost
    | rejected p hc =>
      have left : Wanes (e.withSession arrived)
          (e.withSession { arrived with connection := .disconnected }) := .of_eq rfl rfl rfl rfl
      exact resting (left.connectionLost rfl (.connectionRefused p.code))
    | pong =>
      have noted : Rests (e.withSession arrived)
          (e.withSession { arrived with awaitPingResp := false }) := .of_eq rfl rfl rfl rfl rfl rfl
      exact resting (noted.trans (rests_cancelTimer _ _))
    | closed p =>
      have left : Wanes (e.withSession arrived) (e.withSession arrived.disconnecting) :=
        .of_eq rfl rfl rfl rfl
      exact resting (left.connectionLost rfl (.serverDisconnect p.reason))

theorem attempts_startAttempt {m : Engine} (left : Wanes e m)
    (supervisor : m.supervisor = e.supervisor)
    (hd : e.session.connection = .disconnected) (hm : m.session.connection = .disconnected)
    (configured : m.config.isSome)
    (config : m.config = e.config ∨ ∃ call config, c = .connect call config ∧
      m.config = some config) : Attempts c e m.startAttempt := by
  obtain ⟨chosen, hchosen⟩ := Option.isSome_iff_exists.1 configured
  simp only [startAttempt, hchosen, Session.connecting, hm, if_true]
  have started : Wanes m ({ m.withSession { m.session with connection := .connecting } with
      epoch := m.epoch + 1, opening := true }.schedule .connect chosen.connectTimeout) :=
    .of_eq rfl rfl rfl rfl
  have asked := rests_emit ({ m.withSession { m.session with connection := .connecting } with
      epoch := m.epoch + 1, opening := true }.schedule .connect chosen.connectTimeout)
    (x := .attempt (m.epoch + 1) chosen.host chosen.port) rfl
  exact ⟨left.trans (started.trans asked.toWanes), hd, rfl, supervisor, config⟩

theorem connect_course (e : Engine) (call : CallId) (config : Config) :
    Course e (.connect call config) (e.connect call config) := by
  unfold connect
  split
  · exact .rests (rests_fail e _ _)
  · split
    · exact .rests (rests_fail e _ _)
    · next hd =>
      rw [not_not] at hd
      exact .attempted (attempts_startAttempt (.of_eq rfl rfl rfl rfl) rfl hd hd rfl
        (.inr ⟨call, config, rfl, rfl⟩))

theorem opened_rests (e : Engine) (result : Except TransportError (Option Nat)) :
    Rests e (e.opened result) := by
  have ended : Rests e { e with opening := false } := .of_eq rfl rfl rfl rfl rfl rfl
  unfold opened
  dsimp only
  split
  · exact ended.trans (rests_connectionLost _ _)
  · exact ended
  · next room config _ =>
    let linked : Engine := { e with
      opening := false
      link := some { maxOutgoing := config.maxOutgoing, room } }
    have opens : Rests e linked := .of_eq rfl rfl rfl rfl rfl rfl
    have sent : linked.session.send linked.now (.connect config.connectPacket)
        = (e.session, .ok (.connect config.connectPacket)) ∨
        linked.session.send linked.now (.connect config.connectPacket)
          = (e.session, .error (.invalidState e.session.connection)) := by
      rw [Session.send]
      split
      · exact .inl rfl
      · exact .inr rfl
    obtain he | he := sent
    all_goals rw [he]
    · exact opens.trans (IsOld.rests_writeOrLose (isOld_of_not_isRequest rfl))
    · exact opens.trans (rests_connectionLost _ _)

theorem networkDown_rests (e : Engine) (err : TransportError) : Rests e (e.networkDown err) := by
  unfold networkDown
  refine Rests.trans ?_ (rests_connectionLost _ _)
  split
  · exact rests_sendDisconnect e _
  · exact rests_sendDisconnect e _
  · exact .refl e

theorem expire_cases (e : Engine) (k : UInt16) :
    ∃ m, Rests e m ∧ e.expire k .drop = m.drainBacklog ∧
      e.expire k .reset = m.connectionLost (.transactionTimeout k) := by
  have erased := e.rests_erasePending k
  unfold expire
  dsimp only
  split
  · exact ⟨_, erased.trans (rests_fail _ _ _), rfl, rfl⟩
  · exact ⟨_, (erased.trans (rests_unsubscribeAll _ _)).trans (rests_fail _ _ _), rfl, rfl⟩
  · exact ⟨_, erased.trans (rests_failPending _ _ _), rfl, rfl⟩
  · exact ⟨_, erased, rfl, rfl⟩

theorem expire_course (h : Recedes e d) (k : UInt16) (policy : TimeoutPolicy) :
    Course e c (d.expire k policy) := by
  obtain ⟨m, answered, dropped, reset⟩ := d.expire_cases k
  have recedes := h.trans answered.toRecedes
  cases policy with
  | drop =>
    rw [dropped]
    exact .drained recedes (.refl _)
  | reset =>
    rw [reset]
    exact .rests (recedes.toWanes.connectionLost recedes.config_eq (.transactionTimeout k))

theorem ackTimedOut_course (h : Rests e d) (sound : d.session.IsSound)
    (agrees : ∀ k : UInt16, Agrees d.pending[k]? d.session.outgoing[k]?) (k : UInt16) :
    Course e c (d.ackTimedOut k) := by
  have forgotten : ∀ m : Engine, Recedes d m → Recedes e m := fun m => h.toRecedes.trans
  unfold ackTimedOut
  split
  · exact .drained (forgotten _ ((rests_erasePending d k).toRecedes.trans (recedes_forget _ k)))
      (.refl _)
  · split
    · exact .rests h
    · next config _ =>
      obtain ⟨-, he⟩ | ⟨t, ht, he | ⟨-, he⟩⟩ :=
        Session.retransmit_cases d.session d.now k config.maxRetries
      all_goals rw [he]
      · exact .rests h
      · exact expire_course (forgotten _ (recedes_forget d k)) k _
      · let again : Transaction := { t with retries := t.retries + 1, lastSent := d.now }
        let s : Session := { d.session with outgoing := d.session.outgoing.insert k again }
        have touched : Rests d (d.withSession s) :=
          rests_insert d (u := again) ht fun _ sends => sends
        have fits : again.Fits k := (sound.fits ht).touch _ _
        obtain ⟨q, hq⟩ := (ht ▸ agrees k).exists_pending
        have old : (d.withSession s).IsOld t.resend :=
          isOld_resend (t := again) hq Std.TreeMap.getElem?_insert_self fits
        have written := (h.trans touched).trans old.rests_write
        obtain ⟨m, he', -⟩ | ⟨m, err, he', -⟩ := (d.withSession s).write_writes t.resend
        all_goals
          rw [he'] at written
          simp only [s, again] at he'
          simp only [he']
        · exact .rests (written.trans (rests_schedule m _ _))
        · exact .rests (written.trans (rests_connectionLost m _))

theorem rests_keepAliveDue (e : Engine) : Rests e e.keepAliveDue := by
  unfold keepAliveDue
  dsimp only
  split
  · exact rests_schedule e _ _
  · have pings : (∃ err, e.session.send e.now .pingReq = (e.session, .error err)) ∨
        e.session.send e.now .pingReq
          = ({ e.session with awaitPingResp := true }, .ok .pingReq) := by
      rw [Session.send, Session.sendPing]
      split
      · split
        · exact .inl ⟨_, rfl⟩
        · exact .inr rfl
      · exact .inl ⟨_, rfl⟩
    obtain ⟨err, he⟩ | he := pings
    all_goals rw [he]
    · cases err <;> exact rests_connectionLost e _
    · have pinged : Rests e (e.withSession { e.session with awaitPingResp := true }) :=
        .of_eq rfl rfl rfl rfl rfl rfl
      have written := pinged.trans (IsOld.rests_write (p := .pingReq) (isOld_of_not_isRequest rfl))
      dsimp only
      rcases hw : (e.withSession { e.session with awaitPingResp := true }).write .pingReq
        with ⟨d, err | _⟩
      all_goals rw [hw] at written
      · exact written.trans (rests_connectionLost d _)
      · exact (written.trans (rests_schedule d _ _)).trans (rests_schedule _ _ _)

theorem SettledBut.timer_course (h : Settled w owed e) (timer : Timer) (id : Nat) :
    Course e c (e.timerFired timer id) := by
  unfold Engine.timerFired
  split
  · next ha =>
    have armed : (e.timers.get? timer).isSome := by
      cases ht : e.timers.get? timer with
      | none => simp [ht] at ha
      | some a => rfl
    have cancelled := e.rests_cancelTimer timer
    cases timer with
    | connect => exact .rests (cancelled.trans (rests_connectionLost _ _))
    | ack k => exact ackTimedOut_course cancelled h.ledger.sound h.ledger.agrees k
    | keepAlive => exact .rests (cancelled.trans (rests_keepAliveDue _))
    | pingResp => exact .rests (cancelled.trans (rests_connectionLost _ _))
    | reconnect =>
      obtain ⟨hd, hs⟩ := (h.timers .reconnect not_false).1 armed
      exact .attempted (attempts_startAttempt cancelled.toWanes rfl hd hd
        (h.ledger.config_isSome hs) (.inl rfl))
  · exact .rests (.refl e)

theorem Wanes.leaves {m : Engine} (left : Wanes e m) (config : m.config = e.config) :
    (∀ call, Rests e
      { (({ m.teardown with connectCall := none }.fail call .disconnected).failAll
          .disconnected).cleanSession with subscriptions := {} }) ∧
    Rests e { (m.teardown.failAll .disconnected).cleanSession with subscriptions := {} } := by
  have torn := m.rests_teardown
  have gone := m.teardown_connection
  have kept := torn.config_eq.trans config
  refine ⟨fun call => ?_, (left.trans torn.toWanes).abort kept gone _ _⟩
  have uncalled : Wanes m.teardown { m.teardown with connectCall := none } := .of_eq rfl rfl rfl rfl
  have told := rests_fail { m.teardown with connectCall := none } call .disconnected
  exact (left.trans (torn.toWanes.trans (uncalled.trans told.toWanes))).abort kept gone _ _

theorem rests_disconnect (e : Engine) (reason : DisconnectReason) :
    Rests e (e.disconnect reason) := by
  have farewell : e.session.send e.now (.disconnect { reason })
      = (e.session.disconnecting, .ok (.disconnect { reason })) := rfl
  cases hc : ({ e with supervisor := none } : Engine).isConnected with
  | true =>
    let leaving := Engine.withSession { e with supervisor := none } e.session.disconnecting
    have left : Wanes e leaving := .of_eq rfl rfl rfl rfl
    have written := IsOld.rests_write (e := leaving) (p := .disconnect { reason })
      (isOld_of_not_isRequest rfl)
    obtain ⟨told, untold⟩ := (left.trans written.toWanes).leaves written.config_eq
    simp only [disconnect, hc, farewell]
    split
    · exact told _
    · exact untold
  | false =>
    have left : Wanes e { e with supervisor := none } := .of_eq rfl rfl rfl rfl
    obtain ⟨told, untold⟩ := left.leaves rfl
    simp only [disconnect, hc, farewell]
    split
    · exact told _
    · exact untold

theorem cancelCall_course (e : Engine) (call : CallId) : Course e c (e.cancelCall call) := by
  unfold cancelCall
  split
  · next k p _ =>
    exact .drained (((e.rests_erasePending k).toRecedes.trans (recedes_forget _ k)).trans
      (rests_cancelTimer _ _).toRecedes) (.refl _)
  · exact .rests ⟨⟨⟨Nat.le_refl _, id, id, List.filter_sublist, [], by simp [requests],
      List.forall_mem_nil _⟩, rfl, fun _ => rfl⟩, fun _ => rfl⟩

theorem SettledBut.course (h : Settled w owed e) (c : Command) : Course e c (e.handle c) := by
  cases c with
  | connect call config => exact e.connect_course call config
  | call c => exact .requested rfl
  | disconnect call reason =>
    exact .rests ((e.rests_disconnect reason).trans (rests_succeed _ _ _))
  | cancel call => exact e.cancelCall_course call
  | opened epoch result =>
    rw [Engine.handle]
    split
    · exact .rests (e.opened_rests result)
    · exact .rests (.refl e)
  | incoming epoch packet =>
    rw [Engine.handle]
    split
    · next same => exact same ▸ h.incoming_course packet
    · exact .rests (.refl e)
  | networkDown epoch err =>
    rw [Engine.handle]
    split
    · exact .rests (e.networkDown_rests err)
    · exact .rests (.refl e)
  | timer timer id => exact h.timer_course timer id

end

end MqttClient.Engine
