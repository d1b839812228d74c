import MqttClient.Proofs.Engine.Moves
import MqttClient.Proofs.Engine.Lifetime

/-! Every command is a chain of moves, unless it is the socket that was asked for: then the
connection is greeted, which no other command does. -/

namespace MqttClient.Engine

section

variable {c : Command} {gives : ConnectionError → Prop} {e m : Engine} {f : Front}

theorem moves_startAttempt (config : Config) (keepAlive : Duration)
    (configured : e.config = some config)
    (same : e.front = { f with config := some config, keepAlive })
    (disconnected : f.connection = .disconnected) (unlinked : f.linked = false)
    (quiet : f.awaitPingResp = false) : Moves c gives f e.startAttempt.front := by
  have here : e.session.connection = .disconnected :=
    (congrArg Front.connection same).trans disconnected
  let asked : Front := { e.front with
    connection := .connecting
    epoch := e.epoch + 1
    effects := e.effects ++ [.attempt (e.epoch + 1) config.host config.port] }
  have attempts : Move c gives f asked := by
    simp only [asked, show e.epoch = f.epoch from congrArg Front.epoch same,
      show e.effects = f.effects from congrArg Front.effects same, same]
    exact .attempts (some config) keepAlive _ _ disconnected unlinked quiet
  have started : e.startAttempt.front = asked.schedule .connect config.connectTimeout := by
    simp only [startAttempt, configured, Session.connecting, here, if_true]
    rfl
  rw [started]
  exact .head attempts (.single (.arms .connect (by decide) _))

theorem moves_farewell (unlinked : e.session.connection = .disconnected → e.link = none)
    (reason : DisconnectReason) {cause : ConnectionError} (given : gives cause) :
    Moves c gives e.front ((e.sendDisconnect reason).connectionLost cause).front := by
  by_cases gone : e.session.connection = .disconnected
  · rw [sendDisconnect_of_unlinked (unlinked gone), connectionLost_of_gone gone (unlinked gone)]
  · obtain he | ⟨link, room, bytes, linked, he⟩ := e.sendDisconnect_cases reason
    all_goals rw [he]
    · exact moves_lost rfl (fun h => absurd h gone) given
    · have linked' : e.front.linked = true := congrArg Option.isSome linked
      exact moves_connectionLost (parts_of_told linked' (.inl rfl) rfl) (fun _ => rfl) given

theorem moves_networkDown (unlinked : e.session.connection = .disconnected → e.link = none)
    {err : TransportError} (given : gives (.transport err)) :
    Moves c gives e.front (e.networkDown err).front := by
  unfold networkDown
  split
  · exact moves_farewell unlinked _ given
  · exact moves_farewell unlinked _ given
  · exact moves_lost_of_unlinked unlinked given

/-- What the calls that wait are told when the client leaves. -/
def partings (e : Engine) : List Effect :=
  (e.connectCall.toList ++ e.pending.values.filterMap Pending.call? ++ e.backlog.map Call.id).map
    fun call => .answer call (.error .disconnected)

def departed (e : Engine) (lastOutgoing : Time) : Engine :=
  { e with
    session := { e.session with
      connection := .disconnected
      awaitPingResp := false
      outgoing := {}
      received := {}
      lastOutgoing }
    subscriptions := {}
    pending := {}
    backlog := []
    connectCall := none
    opening := false
    link := none
    epoch := e.epoch + 1
    timers := {}
    supervisor := none }

def leave (m : Engine) : Engine :=
  { ((match m.teardown.connectCall with
    | some call => { m.teardown with connectCall := none }.fail call .disconnected
    | none => m.teardown).failAll .disconnected).cleanSession with subscriptions := {} }

theorem leave_eq {m : Engine} (unsupervised : m.supervisor = none) :
    ∃ close, (close = [] ∨ close = [.close] ∧ m.link.isSome) ∧
      m.leave = { m.departed m.session.lastOutgoing with
        effects := m.effects ++ close ++ m.partings } := by
  have torn : ∃ close, (close = [] ∨ close = [.close] ∧ m.link.isSome) ∧ m.teardown = { m with
      effects := m.effects ++ close
      epoch := m.epoch + 1
      opening := false
      link := none
      timers := {}
      session := m.session.disconnected } := by
    unfold teardown
    cases linked : m.link with
    | none => exact ⟨[], .inl rfl, by rw [List.append_nil]; rfl⟩
    | some link => exact ⟨[.close], .inr ⟨rfl, rfl⟩, rfl⟩
  obtain ⟨close, closes, he⟩ := torn
  refine ⟨close, closes, ?_⟩
  rw [leave, he]
  cases hc : m.connectCall with
  | none =>
    simp only [failAll_eq, cleanSession, withSession, Session.clean, Session.disconnected, departed,
      partings, hc, unsupervised]
    simp
  | some call =>
    simp only [failAll_eq, cleanSession, withSession, Session.clean, Session.disconnected, departed,
      partings, hc, unsupervised, fail, emit]
    simp

theorem disconnect_eq (e : Engine) (reason : DisconnectReason) :
    ∃ said lastOutgoing, Farewell e.link.isSome said ∧ (e.link = none → said = []) ∧
      (lastOutgoing = e.session.lastOutgoing ∨ lastOutgoing = e.now) ∧
      e.disconnect reason = { e.departed lastOutgoing with
        effects := e.effects ++ said ++ e.partings } := by
  have farewell : e.session.send e.now (.disconnect { reason })
      = (e.session.disconnecting, .ok (.disconnect { reason })) := rfl
  -- Nothing was written, so that the connection is closed at most.
  have silent : ∀ m : Engine, m.supervisor = none → m.link = e.link → m.effects = e.effects →
      m.partings = e.partings →
      m.departed m.session.lastOutgoing = e.departed e.session.lastOutgoing →
      ∃ said lastOutgoing, Farewell e.link.isSome said ∧ (e.link = none → said = []) ∧
        (lastOutgoing = e.session.lastOutgoing ∨ lastOutgoing = e.now) ∧
        m.leave = { e.departed lastOutgoing with effects := e.effects ++ said ++ e.partings } := by
    intro m unsupervised link effects partings departed
    obtain ⟨close, closes, he⟩ := m.leave_eq unsupervised
    rw [effects, partings, departed] at he
    refine ⟨close, _, ?_, fun unlinked => ?_, .inl rfl, he⟩
    · obtain rfl | ⟨rfl, -⟩ := closes
      · exact .silent
      · exact .closes
    · obtain rfl | ⟨-, linked⟩ := closes
      · rfl
      · rw [link, unlinked] at linked
        cases linked
  cases hc : ({ e with supervisor := none } : Engine).isConnected with
  | false =>
    simp only [disconnect, hc, farewell]
    exact silent { e with supervisor := none } rfl rfl rfl rfl rfl
  | true =>
    let leaving := Engine.withSession { e with supervisor := none } e.session.disconnecting
    have left : e.disconnect reason = (leaving.write (.disconnect { reason })).1.leave := by
      simp only [disconnect, hc, farewell]
      rfl
    rw [left]
    obtain ⟨link, bytes, linked, -, -, he⟩ | ⟨link, err, -, -, he⟩ | ⟨-, err, -, he⟩ :=
      leaving.write_cases (.disconnect { reason })
    all_goals rw [he]
    · have linked' : e.link.isSome = true := congrArg Option.isSome linked
      obtain ⟨close, closes, he⟩ := leave_eq (m := { leaving with
        link := some { link with room := link.room.map (· - 1) }
        effects := e.effects ++ [.write none (.disconnect { reason }) bytes]
        session := { e.session.disconnecting with lastOutgoing := e.now } }) rfl
      refine ⟨[.write none (.disconnect { reason }) bytes] ++ close, e.now, ?_, fun unlinked => ?_,
        .inr rfl, he.trans ?_⟩
      · obtain rfl | ⟨rfl, -⟩ := closes
        · exact .tells linked' _ _
        · exact .tellsAndCloses linked' _ _
      · cases linked.symm.trans unlinked
      · rw [← List.append_assoc]
        rfl
    all_goals exact silent leaving rfl rfl rfl rfl rfl

theorem moves_disconnect (e : Engine) (reason : DisconnectReason) :
    Moves c gives e.front (e.disconnect reason).front := by
  obtain ⟨said, lastOutgoing, farewell, -, sent, he⟩ := e.disconnect_eq reason
  have parted : (e.disconnect reason).front
      = (e.front.parted said lastOutgoing).tell e.partings := by
    rw [he]
    rfl
  rw [parted]
  refine .head (.parts farewell sent) (.single (.tells fun x hx => ?_))
  obtain ⟨call, -, rfl⟩ := List.mem_map.1 hx
  trivial

theorem moves_stop (e : Engine) : Moves c gives e.front e.stop.front := by
  have parts : Move c gives e.front
      ({ e with supervisor := none }.sendDisconnect .normalDisconnection).teardown.front := by
    obtain he | ⟨link, room, bytes, linked, he⟩ :=
      sendDisconnect_cases { e with supervisor := none } .normalDisconnection
    all_goals rw [he]
    · exact parts_of_shed rfl
    · exact parts_of_told (congrArg Option.isSome linked) (.inl rfl) rfl
  unfold stop
  dsimp only
  split
  · exact .head parts (moves_abort rfl .engineGone (fun _ => trivial) _)
  · exact .head (parts_of_shed (m := { e with supervisor := none }) rfl)
      (moves_abort rfl .engineGone (fun _ => trivial) _)

end

theorem mayGive_of_ne {e : Engine} {c : Command} {cause : ConnectionError}
    (ne : cause ≠ .pingTimeout) : e.MayGive c cause :=
  fun eq => absurd eq ne

theorem mayGive_transport (e : Engine) (c : Command) (err : TransportError) :
    e.MayGive c (.transport err) :=
  mayGive_of_ne (by simp)

/-- The front goes from move to move, but for the socket that was asked for: the connection is
greeted, or nothing gets through. -/
inductive Reacts (c : Command) (e d : Engine) : Prop
  | moves (other : ¬ c.Opens e.epoch) (moves : Moves c (e.MayGive c) e.front d.front)
  | fails (opens : c.Opens e.epoch) (moves : Moves c (e.MayGive c) e.front d.front)
    (unlinked : d.link = none) {out : List Effect} (effects_eq : d.effects = e.effects ++ out)
    (silent : out.any Effect.isWrite = false)
  | greets (opens : c.Opens e.epoch) (connecting : e.session.connection = .connecting)
    {call : Option CallId} {p : Connect} {bytes : Bytes}
    (front_eq : d.front = e.front.greeted call p bytes)

theorem Reacts.effects {c : Command} {e d : Engine} (h : Reacts c e d) :
    ∃ out, d.effects = e.effects ++ out := by
  cases h with
  | moves _ moves => exact effects_of_moves moves
  | fails _ _ _ effects => exact ⟨_, effects⟩
  | greets _ _ front_eq => exact ⟨_, congrArg Front.effects front_eq⟩

theorem silent_connectionLost (e : Engine) (cause : ConnectionError) :
    ∃ out, (e.connectionLost cause).effects = e.effects ++ out ∧
      out.any Effect.isWrite = false := by
  obtain ⟨out, he, lost⟩ := e.effects_connectionLost cause
  refine ⟨out, he, List.any_eq_false.2 fun x hx => ?_⟩
  cases x with
  | write => exact absurd (lost _ hx) id
  | _ => exact Bool.false_ne_true

section

variable {w : World} {owed : CallId → Nat} {c : Command} {e : Engine}

theorem SettledBut.reacts_opened (h : Settled w owed e) (room : Option Nat) :
    Reacts (.opened e.epoch (.ok room)) e (e.opened (.ok room)) := by
  have unlinked := h.posture.link_eq_none
  have opens : (Command.opened e.epoch (.ok room)).Opens e.epoch := ⟨room, rfl⟩
  unfold opened
  dsimp only
  split
  · next heq => cases heq
  · next _ unconfigured =>
    have gone : e.session.connection = .disconnected := by
      by_contra alive
      have configured := h.posture.config_isSome alive
      rw [unconfigured] at configured
      cases configured
    exact .fails opens .refl (unlinked gone) (List.append_nil e.effects).symm rfl
  · next room config heq _ =>
    cases heq
    let linked : Engine := { e with
      opening := false
      link := some { maxOutgoing := config.maxOutgoing, room } }
    have lost : ∀ cause, cause ≠ .pingTimeout → Reacts (.opened e.epoch (.ok room)) e
        (linked.connectionLost cause) := fun cause ne => by
      obtain ⟨out, effects, silent⟩ := linked.silent_connectionLost cause
      have parts : Parts (.opened e.epoch (.ok room)) linked (linked.connectionLost cause) :=
        linked.parts_connectionLost cause fun _ => rfl
      exact .fails opens
        (moves_lost (f := e.front) (m := linked) rfl (fun _ => rfl) (mayGive_of_ne ne))
        parts.link_eq effects silent
    have sent : linked.session.send linked.now (.connect config.connectPacket)
        = if e.session.connection = .connecting
          then (e.session, .ok (.connect config.connectPacket))
          else (e.session, .error (.invalidState e.session.connection)) := rfl
    rw [sent]
    split_ifs with connecting
    · change Reacts _ e (linked.writeOrLose _)
      unfold Engine.writeOrLose
      obtain ⟨d, bytes, he, -, hd⟩ | ⟨err, he⟩ :=
        linked.write_fronts (.connect config.connectPacket)
      all_goals rw [he]
      · exact .greets opens connecting hd
      · exact lost _ (by simp)
    · exact lost _ (by simp)

theorem SettledBut.moves_incoming (h : Settled w owed e) (ho : w.opened e.epoch)
    (packet : Packet) :
    Moves (.incoming e.epoch packet) (e.MayGive (.incoming e.epoch packet)) e.front
      (e.incoming packet).front := by
  let c : Command := .incoming e.epoch packet
  let arrived : Session := { e.session with lastIncoming := e.now }
  have transport := e.mayGive_transport c
  by_cases accepting :
      e.session.connection = .connecting ∧ ∃ p, packet = .connAck p ∧ p.code = .success
  · obtain ⟨connecting, p, rfl, success⟩ := accepting
    obtain ⟨config, configured⟩ :=
      Option.isSome_iff_exists.1 (h.posture.config_isSome (by simp [connecting]))
    have quiet := h.posture.awaitPingResp_eq (by simp [connecting])
    have accepts : Move c (e.MayGive c) e.front { e.welcomed.front with
        connection := .connected, keepAlive := agreedKeepAlive config p } :=
      .accepts rfl success connecting configured quiet
    rw [h.incoming_connAck connecting success]
    exact moves_connected (e := e.welcomed) (h.ledger.sound.congr rfl rfl) configured
      (.single accepts) rfl transport
  obtain ⟨err, he, fails⟩ | ⟨s, events, reply, hr, he, told, accepted⟩ := h.incoming_cases packet
  · rw [fails]
    exact moves_farewell (e := e.withSession arrived) h.posture.link_eq_none _
      (mayGive_of_ne (by simp))
  · have answered : ∀ {d : Engine}, Moves c (e.MayGive c) e.front d.front →
        Moves c (e.MayGive c) e.front (d.replied reply).front := fun moves =>
      moves.trans (moves_replied _ (fun packet hp => Session.isAck_of_receive (hp ▸ he)) transport)
    rw [told]
    refine answered ?_
    cases hr with
    | noted | release => exact .refl
    | message p received' =>
      exact moves_dispatch (e.withSession { arrived with received := received' }) p
    | @ended k t event ht ends =>
      cases event with
      | published j ack => exact moves_published (e.withSession (arrived.forget k)) j ack transport
      | subscribed p => exact moves_subscribed (e.withSession (arrived.forget k)) p transport
      | unsubscribed p => exact moves_unsubscribed (e.withSession (arrived.forget k)) p transport
      | _ => exact absurd ends id
    | accepted p hc => exact absurd ⟨hc, p, accepted p rfl⟩ accepting
    | rejected p hc =>
      exact moves_lost (f := e.front)
        (m := e.withSession { arrived with connection := .disconnected }) rfl
        (fun _ => h.posture.link_isSome_of_opened hc ho) (mayGive_of_ne (by simp))
    | pong => exact .head .pongs (.single (.disarms .pingResp))
    | closed p =>
      exact moves_lost (f := e.front) (m := e.withSession arrived.disconnecting) rfl
        (by simp [Session.disconnecting, withSession]) (mayGive_of_ne (by simp))

theorem SettledBut.moves_timer (h : Settled w owed e) (timer : Timer) (id : Nat) :
    Moves (.timer timer id) (e.MayGive (.timer timer id)) e.front
      (e.timerFired timer id).front := by
  let c : Command := .timer timer id
  have transport := e.mayGive_transport c
  unfold Engine.timerFired
  split
  · next fires =>
    have armed : (e.timers.get? timer).isSome := by
      cases ht : e.timers.get? timer with
      | none => simp [ht] at fires
      | some a => rfl
    have wanted := (h.timers timer not_false).1 armed
    refine .head (.disarms timer) ?_
    cases timer with
    | connect =>
      exact moves_lost_of_unlinked (e := e.cancelTimer .connect) h.posture.link_eq_none
        (mayGive_of_ne (by simp))
    | ack k =>
      exact moves_ackTimedOut (e := e.cancelTimer (.ack k)) wanted.1 h.ledger.sound k transport
        (mayGive_of_ne (by simp))
    | keepAlive =>
      exact moves_keepAliveDue (e := e.cancelTimer .keepAlive) wanted.1 transport
        fun waits due _ => ⟨fires, .inr ⟨rfl, waits, due⟩⟩
    | pingResp =>
      exact moves_lost_of_unlinked (e := e.cancelTimer .pingResp) h.posture.link_eq_none
        fun _ => ⟨fires, .inl rfl⟩
    | reconnect =>
      obtain ⟨config, configured⟩ := Option.isSome_iff_exists.1 (h.ledger.config_isSome wanted.2)
      have quiet := h.posture.awaitPingResp_eq (by simp [wanted.1])
      have unlinked := congrArg Option.isSome (h.posture.link_eq_none wanted.1)
      have same : (e.cancelTimer .reconnect).front
          = { e.front.cancel .reconnect with config := some config } := by
        rw [← configured]
        rfl
      exact moves_startAttempt config _ configured same wanted.1 unlinked quiet
  · exact .refl

theorem SettledBut.moves_connect (h : Settled w owed e) (call : CallId) (config : Config) :
    Moves c (e.MayGive c) e.front (e.connect call config).front := by
  unfold Engine.connect
  split
  · exact e.moves_fail call (.invalidState .connecting) trivial
  · split
    · exact e.moves_fail call (.invalidState e.session.connection) trivial
    · next gone =>
      rw [not_not] at gone
      have quiet := h.posture.awaitPingResp_eq (by simp [gone])
      have unlinked := congrArg Option.isSome (h.posture.link_eq_none gone)
      exact moves_startAttempt config config.keepAlive rfl rfl gone unlinked quiet

theorem SettledBut.reacts (h : Settled w owed e) (heard : Heard w e c) :
    Reacts c e (e.handle c) := by
  by_cases opens : c.Opens e.epoch
  · obtain ⟨room, rfl⟩ := opens
    rw [Engine.handle, if_pos rfl]
    exact h.reacts_opened room
  refine .moves opens ?_
  have unlinked := h.posture.link_eq_none
  have transport := e.mayGive_transport c
  cases c with
  | opened epoch result =>
    rw [Engine.handle]
    split
    · next same =>
      subst same
      cases result with
      | ok room => exact absurd ⟨room, rfl⟩ opens
      | error err =>
        exact moves_lost_of_unlinked (e := { e with opening := false }) unlinked (transport err)
    · exact .refl
  | connect call config => exact h.moves_connect call config
  | call call => exact moves_request e call transport
  | disconnect call reason =>
    exact (e.moves_disconnect reason).trans (moves_succeed _ call .disconnected)
  | cancel call => exact moves_cancelCall e call transport
  | incoming epoch packet =>
    rw [Engine.handle]
    split
    · next same =>
      subst same
      exact h.moves_incoming heard packet
    · exact .refl
  | networkDown epoch err =>
    rw [Engine.handle]
    split
    · exact moves_networkDown unlinked (transport err)
    · exact .refl
  | timer timer id => exact h.moves_timer timer id

end

theorem Reachable.reacts {past : List Command} {e : Engine} {c : Command} (h : Reachable past e)
    (possible : Possible past e c) : Reacts c e (e.handle c) :=
  h.accounted.settled.reacts (h.accounted.heard possible)

end MqttClient.Engine
