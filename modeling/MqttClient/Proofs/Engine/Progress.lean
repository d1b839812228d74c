import MqttClient.Proofs.Engine.Deeds

/-! Every command is a chain of deeds, unless the connection is given up or made over it: one lemma
for each thing that the engine does, from sending a call to handling a command. -/

namespace MqttClient.Engine

section

variable {c : Command} {e d f m : Engine} {out : List Effect}

theorem Poised.sendCall (h : Poised c e m) (table : m.subscriptions = e.subscriptions)
    (connected : e.session.connection = .connected) {call : Call} (offered : e.Offers c call) :
    Steps c e (m.sendCall call) := by
  have here : m.session.connection = .connected := h.connection_eq.trans connected
  obtain ⟨id, p, rfl, he⟩ | ⟨k, packet, phase, carries, asks, he⟩ | he := m.sendCall_forms here call
  all_goals rw [he]
  · exact h.sendUnacknowledged connected table offered 0
  · have entered : Poised c e { m with subscriptions := call.enter m.subscriptions } :=
      h.then_eq rfl rfl rfl rfl rfl rfl rfl rfl rfl rfl
    refine entered.transmit connected (.inl ⟨call, offered, rfl⟩) asks (fun bytes => ?_)
      fun err => ?_
    · rw [call?_pending, table]
      exact .sends offered carries
    · rw [call?_pending, table]
      exact .withdraws offered
  · exact .single (.does (h.does (t := call.forgo m.subscriptions) (table ▸ .forgoes offered) rfl))

theorem steps_request (c : Command) (e : Engine) {call : Call} (offered : e.Offers c call) :
    Steps c e (e.request call false) := by
  have held : Steps c e { e with backlog := e.backlog ++ [call] } := by
    have same := Poised.refl c e
    have holds : Poised c e { e with backlog := e.backlog ++ [call] } := { same with
      effects := same.effects
      outgoing := same.outgoing
      pending := same.pending
      backlog := fun call' hc => (List.mem_append.1 hc).elim .inr fun hc =>
        List.mem_singleton.1 hc ▸ offered }
    exact holds.steps rfl
  unfold request
  split
  · next hc =>
    split
    · exact held
    · exact (Poised.refl c e).sendCall rfl (by simpa [isConnected] using hc) offered
  · split
    · exact held
    · exact steps_answer c e call.id rfl

theorem steps_drainBacklog (c : Command) (e : Engine) : Steps c e e.drainBacklog := by
  refine drainLoop_induction (motive := Steps c e) e.backlog.length .refl
    fun d call rest steps connected _ hb => steps.trans ?_
  have popped : Poised c d { d with backlog := rest } :=
    (Poised.refl c d).hold fun call' hc => hb ▸ List.mem_cons_of_mem _ hc
  exact popped.sendCall rfl connected (.inr (hb ▸ List.mem_cons_self))

theorem steps_cancelCall (c : Command) (e : Engine) (call : CallId) :
    Steps c e (e.cancelCall call) := by
  have here := Poised.refl c e
  unfold cancelCall
  split
  · next k p _ =>
    have gone := ((here.erasePending k).forget k).cancelTimer
      (by simp : Timer.ack k ≠ .keepAlive)
    exact (gone.steps rfl).trans (steps_drainBacklog c _)
  · exact (here.hold fun call' hc => (List.mem_filter.1 hc).1).steps rfl

theorem steps_failPending (c : Command) (e : Engine) (p : Pending) {err : ClientError}
    (plain : isPlain (.error err) = true) : Steps c e (e.failPending p err) := by
  unfold failPending
  split
  · exact steps_answer c e _ plain
  · exact .refl

theorem poised_acknowledged (c : Command) (e : Engine) (k : UInt16) :
    Poised c e ((e.cancelTimer (.ack k)).erasePending k) :=
  ((Poised.refl c e).cancelTimer (by simp : Timer.ack k ≠ .keepAlive)).erasePending k

theorem steps_published (c : Command) (e : Engine) (k : UInt16) (ack : PublishAck) :
    Steps c e (e.published k ack) := by
  have gone := (poised_acknowledged c e k).steps rfl
  unfold published
  refine Relation.ReflTransGen.trans ?_ (steps_drainBacklog c _)
  split
  · exact gone.trans (steps_answer c _ _ rfl)
  · exact gone.trans (steps_failPending c _ _ rfl)
  · exact gone

theorem steps_subscribed (c : Command) (e : Engine) (p : SubAck) : Steps c e (e.subscribed p) := by
  have gone := poised_acknowledged c e p.packetId
  have waits : (e.cancelTimer (.ack p.packetId)).pending = e.pending := rfl
  unfold subscribed
  refine Relation.ReflTransGen.trans ?_ (steps_drainBacklog c _)
  rw [waits]
  split
  · next id paths hp => exact .single (.does (gone.does (.granted hp) rfl))
  · next paths hp =>
    have regranted := gone.does (.regranted hp) rfl
    rw [List.append_nil] at regranted
    exact .single (.does regranted)
  · exact (gone.steps rfl).trans (steps_failPending c _ _ rfl)
  · exact gone.steps rfl

theorem steps_unsubscribed (c : Command) (e : Engine) (p : UnsubAck) :
    Steps c e (e.unsubscribed p) := by
  have gone := (poised_acknowledged c e p.packetId).steps rfl
  unfold unsubscribed
  refine Relation.ReflTransGen.trans ?_ (steps_drainBacklog c _)
  split
  · exact gone.trans (steps_answer c _ _ rfl)
  · exact gone.trans (steps_failPending c _ _ rfl)
  · exact gone

theorem dispatch_eq (e : Engine) (p : Publish) :
    e.dispatch p = { e with
      effects := e.effects
        ++ (e.subscriptions.handlersOf p.topic).map fun h => .deliver h (.ofPublish p) } := by
  unfold dispatch
  generalize e.subscriptions.handlersOf p.topic = handlers
  induction handlers generalizing e with
  | nil => simp
  | cons handler rest ih =>
    rw [List.foldl_cons, ih]
    simp [emit]

theorem steps_dispatch (c : Command) (e : Engine) (p : Publish) : Steps c e (e.dispatch p) := by
  have silent : ((e.subscriptions.handlersOf p.topic).map fun h =>
      Effect.deliver h (.ofPublish p)).any Effect.isWrite = false := by
    simp [Effect.isWrite]
  rw [dispatch_eq]
  exact .single (.does ((Poised.refl c e).does (.delivers p) silent))

theorem Poised.write (h : Poised c e m) (table : m.subscriptions = e.subscriptions)
    (alive : e.session.connection = .disconnected → e.link.isSome) {packet : Packet}
    (other : packet.isSubscription = false) :
    (∃ d, m.write packet = (d, .ok ()) ∧ Steps c e d) ∨
    ∃ d err, m.write packet = (d, .error err) ∧ ∀ cause, Steps c e (d.connectionLost cause) := by
  obtain ⟨link, bytes, linked, takes, -, he⟩ | ⟨link, err, -, -, he⟩ | ⟨stuck, err, ne, he⟩ :=
    m.write_cases packet
  · have deed : Deed c e [.write (m.requester packet) packet bytes] m.subscriptions :=
      table ▸ .writes other
    have wrote := h.does_write linked (link.room.map (· - 1)) deed
    exact .inl ⟨_, he, .single (.does wrote)⟩
  all_goals exact .inr ⟨_, _, he, fun cause => h.toStays.lost alive cause⟩

theorem Poised.writeOrLose (h : Poised c e m) (table : m.subscriptions = e.subscriptions)
    (alive : e.session.connection = .disconnected → e.link.isSome) {packet : Packet}
    (other : packet.isSubscription = false) : Steps c e (m.writeOrLose packet) := by
  unfold Engine.writeOrLose
  obtain ⟨d, he, steps⟩ | ⟨d, err, he, lost⟩ := h.write table alive other
  all_goals rw [he]
  · exact steps
  · exact lost _

theorem Poised.expire (h : Poised c e m) (table : m.subscriptions = e.subscriptions)
    (same : m.pending = e.pending) (connected : e.session.connection = .connected) (k : UInt16)
    (policy : TimeoutPolicy) : Steps c e (m.expire k policy) := by
  have gone := h.erasePending k
  have told : ∃ out d, Does c e out d ∧ m.expire k .drop = d.drainBacklog ∧
      m.expire k .reset = d.connectionLost (.transactionTimeout k) := by
    unfold Engine.expire
    dsimp only
    split
    · exact ⟨_, _, gone.does (t := m.subscriptions) (table ▸ .answers rfl) rfl, rfl, rfl⟩
    · next id paths hp =>
      exact ⟨_, _, gone.does (t := m.subscriptions.eraseAll paths)
        (table ▸ .expires (same ▸ hp)) rfl, rfl, rfl⟩
    · next other _ _ hp =>
      cases hc : other.call? with
      | some id =>
        simp only [failPending, hc]
        exact ⟨_, _, gone.does (t := m.subscriptions) (table ▸ .answers rfl) rfl, rfl, rfl⟩
      | none =>
        simp only [failPending, hc]
        exact ⟨_, _, gone.does_nothing table, rfl, rfl⟩
    · exact ⟨_, _, gone.does_nothing table, rfl, rfl⟩
  obtain ⟨out, d, told, dropped, reset⟩ := told
  cases policy with
  | drop => exact dropped ▸ .head (.does told) (steps_drainBacklog c d)
  | reset => exact reset ▸ told.toStays.lost (by simp [connected]) _

theorem isSubscription_resend {t : Transaction} {k : UInt16} (fits : t.Fits k)
    (retried : t.isRetried = true) : t.resend.isSubscription = false := by
  obtain ⟨p, -, -, -, -, he⟩ | ⟨p, -, -, -, he⟩ | ⟨p, phase, -⟩ | ⟨p, phase, -⟩ := fits.resend_cases
  · rw [he]
    rfl
  · rw [he]
    rfl
  · simp [Transaction.isRetried, phase] at retried
  · simp [Transaction.isRetried, phase] at retried

theorem Poised.ackTimedOut (h : Poised c e m) (table : m.subscriptions = e.subscriptions)
    (same : m.pending = e.pending) (connected : e.session.connection = .connected)
    (sound : m.session.IsSound) (k : UInt16) : Steps c e (m.ackTimedOut k) := by
  unfold Engine.ackTimedOut
  split
  · exact (((h.erasePending k).forget k).steps table).trans (steps_drainBacklog c _)
  · split
    · exact h.steps table
    · next config _ =>
      obtain ⟨-, he⟩ | ⟨t, ht, he | ⟨retried, he⟩⟩ :=
        Session.retransmit_cases m.session m.now k config.maxRetries
      all_goals rw [he]
      · exact h.steps table
      · exact (h.forget k).expire table same connected k _
      · have touched :=
          h.insert (u := { t with retries := t.retries + 1, lastSent := m.now }) ht rfl
        obtain ⟨d, he', steps⟩ | ⟨d, err, he', lost⟩ :=
          touched.write table (by simp [connected]) (isSubscription_resend (sound.fits ht) retried)
        all_goals simp only [he']
        · exact steps.trans (steps_schedule c d (by simp) _)
        · exact lost _

theorem deadline_le {now last : Nat} {keepAlive : Duration}
    (running : Duration.between last now < keepAlive) :
    now + (keepAlive.sub (Duration.between last now)).nanos ≤ last + keepAlive.nanos := by
  have bound : keepAlive.nanos ≤ Duration.maxNanos := keepAlive.nanos_le
  have elapsed : (Duration.between last now).nanos = min (now - last) Duration.maxNanos := rfl
  have left : (keepAlive.sub (Duration.between last now)).nanos
      = min (keepAlive.nanos - (Duration.between last now).nanos) Duration.maxNanos := rfl
  have lt : (Duration.between last now).nanos < keepAlive.nanos := running
  omega

theorem steps_ping (c : Command) (e : Engine) (connected : e.session.connection = .connected) :
    let m := e.cancelTimer .keepAlive
    let pinged := m.withSession { m.session with awaitPingResp := true }
    (∃ d, pinged.write .pingReq = (d, .ok ()) ∧ ∀ grace,
      Steps c e ((d.schedule .pingResp grace).schedule .keepAlive d.keepAlive)) ∨
    ∃ d err, pinged.write .pingReq = (d, .error err) ∧
      ∀ cause, Steps c e (d.connectionLost cause) := by
  intro m pinged
  have stays : Stays c e pinged := .of_eq rfl rfl rfl rfl rfl rfl rfl rfl rfl rfl rfl rfl
  obtain ⟨link, bytes, linked, -, -, he⟩ | ⟨link, err, -, -, he⟩ | ⟨-, err, -, he⟩ :=
    pinged.write_cases .pingReq
  · have deed : Deed c e [.write none .pingReq bytes] e.subscriptions := .writes rfl
    refine .inl ⟨_, he, fun grace => .single (.does { stays with
      maxOutgoing_eq := ?_
      effects := ⟨_, rfl, deed.warrants⟩
      lastOutgoing := .inr rfl
      outgoing := stays.outgoing
      deed
      effects_eq := rfl
      lastOutgoing_eq := rfl
      timer := .inr ⟨_, Timers.get?_set_self _ .keepAlive _, Nat.le_refl _⟩
      pending := stays.pending
      backlog := stays.backlog })⟩
    rw [← stays.maxOutgoing_eq, linked]
    rfl
  all_goals exact .inr ⟨_, _, he, stays.lost (by simp [connected])⟩

theorem steps_keepAliveDue (c : Command) (e : Engine)
    (connected : e.session.connection = .connected) :
    Steps c e (e.cancelTimer .keepAlive).keepAliveDue := by
  have stays : Stays c e (e.cancelTimer .keepAlive) :=
    .of_eq rfl rfl rfl rfl rfl rfl rfl rfl rfl rfl rfl rfl
  unfold keepAliveDue
  dsimp only
  split
  · next running =>
    have rearmed : Does c e [] ((e.cancelTimer .keepAlive).schedule .keepAlive
        (e.keepAlive.sub (Duration.between e.session.lastOutgoing e.now))) := { stays with
      effects := stays.effects
      outgoing := stays.outgoing
      deed := .quiet
      effects_eq := (List.append_nil _).symm
      lastOutgoing_eq := rfl
      timer := .inr ⟨_, rfl, deadline_le running⟩
      pending := stays.pending
      backlog := stays.backlog }
    exact .single (.does rearmed)
  · have here : (e.cancelTimer .keepAlive).session.connection = .connected := connected
    obtain he | he := Session.sendPing_forms here
    all_goals rw [Session.send, he]
    · exact stays.lost (by simp [connected]) _
    · obtain ⟨d, he', steps⟩ | ⟨d, err, he', lost⟩ := steps_ping c e connected
      all_goals simp only [he']
      · exact steps _
      · exact lost _

theorem steps_replayAll (accepts : c.IsConnAck) (ackTimeout : Duration) (packets : List Packet)
    (e : Engine) (alive : e.session.connection ≠ .disconnected) :
    Steps c e (e.replayAll ackTimeout packets).1 := by
  induction packets generalizing e with
  | nil => exact .refl
  | cons packet rest ih =>
    have here := Poised.refl c e
    rw [replayAll]
    obtain ⟨link, bytes, linked, -, -, he⟩ | ⟨link, err, -, -, he⟩ | ⟨-, err, -, he⟩ :=
      e.write_cases packet
    all_goals simp only [he]
    · have deed : Deed c e [.write (e.requester packet) packet bytes] e.subscriptions :=
        .replays accepts
      have wrote := here.does_write linked (link.room.map (· - 1)) deed
      exact .head (.does wrote) ((steps_schedule c _ (by simp) _).trans (ih _ alive))
    all_goals exact here.toStays.lost (fun gone => absurd gone alive) _

theorem replayAll_cases (e : Engine) (ackTimeout : Duration) (packets : List Packet) :
    (∃ link timers lastTimerId lastOutgoing out, e.replayAll ackTimeout packets = ({ e with
        link, timers, lastTimerId
        session := { e.session with lastOutgoing }
        effects := e.effects ++ out }, true) ∧
      link.map Link.maxOutgoing = e.link.map Link.maxOutgoing ∧
      out.filterMap Effect.packet? = packets) ∨
    ∃ d, e.replayAll ackTimeout packets = (d, false) ∧ d.session.connection ≠ .connected := by
  induction packets generalizing e with
  | nil =>
    exact .inl ⟨e.link, e.timers, e.lastTimerId, e.session.lastOutgoing, [], by simp [replayAll],
      rfl, rfl⟩
  | cons packet rest ih =>
    rw [replayAll]
    obtain ⟨link, bytes, linked, -, -, he⟩ | ⟨link, err, -, -, he⟩ | ⟨-, err, -, he⟩ :=
      e.write_cases packet
    all_goals simp only [he]
    · let wrote : Effect := .write (e.requester packet) packet bytes
      refine (ih _).imp_left ?_
      rintro ⟨link', timers, lastTimerId, lastOutgoing, out, he', same, packets⟩
      refine ⟨link', timers, lastTimerId, lastOutgoing, wrote :: out, ?_, ?_, ?_⟩
      · rw [he', List.append_cons e.effects wrote out]
        rfl
      · rw [same, linked]
        rfl
      · rw [List.filterMap_cons, packets]
        rfl
    all_goals
      refine .inr ⟨_, rfl, ?_⟩
      rw [connectionLost_connection]
      decide

theorem steps_resubscribe (accepts : c.IsConnAck) (e : Engine)
    (connected : e.session.connection = .connected) : Steps c e e.resubscribe := by
  unfold resubscribe
  split
  · exact .refl
  · simp only [Session.send]
    obtain ⟨k, he⟩ | he := Session.start_forms connected e.now .subscribing
      fun k => .subscribe { filters := e.subscriptions.filters, packetId := k }
    all_goals rw [he]
    · exact (Poised.refl c e).transmit (p := .resubscribe (e.subscriptions.filters.map (·.path)))
        connected (.inr ⟨accepts, _, rfl⟩) (fun _ => rfl) (fun _ => .renews accepts)
        fun _ => .quiet
    · exact .refl

theorem steps_resume (accepts : c.IsConnAck) (e : Engine)
    (connected : e.session.connection = .connected) (ackTimeout : Duration) :
    Steps c e (e.resume ackTimeout) := by
  let taken := e.withSession (e.session.replay e.now).1
  have here : taken.session.connection = .connected := connected
  have poised : Poised c e taken := by
    refine (Poised.refl c e).revise rfl rfl rfl fun {k t} ht => ?_
    rw [Session.getElem?_replay, Option.map_eq_some_iff] at ht
    obtain ⟨u, hu, rfl⟩ := ht
    exact ⟨u, hu, rfl⟩
  have replayed := (poised.steps rfl).trans
    (steps_replayAll accepts ackTimeout (e.session.replay e.now).2 taken (by simp [here]))
  obtain ⟨link, timers, lastTimerId, lastOutgoing, out, he, -, -⟩ | ⟨d, he, -⟩ :=
    taken.replayAll_cases ackTimeout (e.session.replay e.now).2
  all_goals rw [he] at replayed
  · rw [resume_of_replayed he]
    exact (replayed.trans (steps_resubscribe accepts _ here)).trans (steps_drainBacklog c _)
  · rw [resume_of_lost he]
    exact replayed

theorem parts_startAttempt {config : Config} (now : m.now = e.now) (epoch : m.epoch = e.epoch)
    (effects : m.effects = e.effects) (disconnected : m.session.connection = .disconnected)
    (unlinked : m.link = none) (configured : m.config = some config)
    (lastOutgoing : m.session.lastOutgoing = e.session.lastOutgoing)
    (outgoing : ∀ {k : UInt16} {t : Transaction}, m.session.outgoing[k]? = some t →
      m.config = e.config ∧ e.session.outgoing[k]? = some t) (pending : m.pending = e.pending)
    (backlog : m.backlog = e.backlog) : Parts c e m.startAttempt := by
  simp only [startAttempt, configured, Session.connecting, disconnected, if_true]
  refine ⟨now, epoch ▸ Nat.lt_succ_self _, (fun same => by cases same), unlinked,
    ⟨_, congrArg (· ++ _) effects, warrants_of_silent e c rfl⟩,
    .inl lastOutgoing, fun ht => ?_, fun hp => .inl (pending ▸ hp), fun _ hc => .inr (backlog ▸ hc)⟩
  obtain ⟨same, old⟩ := outgoing ht
  exact ⟨same, .inl ⟨_, old, rfl⟩⟩

theorem connectionLost_of_gone (gone : e.session.connection = .disconnected)
    (unlinked : e.link = none) (cause : ConnectionError) : e.connectionLost cause = e := by
  rw [connectionLost, if_pos ⟨gone, by simp [unlinked]⟩]

theorem steps_connectionLost (c : Command) (e : Engine)
    (unlinked : e.session.connection = .disconnected → e.link = none) (cause : ConnectionError) :
    Steps c e (e.connectionLost cause) := by
  by_cases gone : e.session.connection = .disconnected
  · rw [connectionLost_of_gone gone (unlinked gone)]
  · exact (Poised.refl c e).toStays.lost (fun h => absurd h gone) _

theorem steps_opened (c : Command) (e : Engine)
    (unlinked : e.session.connection = .disconnected → e.link = none)
    (result : Except TransportError (Option Nat)) : Steps c e (e.opened result) := by
  have ended : Poised c e { e with opening := false } :=
    .of_eq rfl rfl rfl rfl rfl rfl rfl rfl rfl rfl rfl rfl rfl
  unfold opened
  dsimp only
  split
  · exact (ended.steps rfl).trans (steps_connectionLost c { e with opening := false } unlinked _)
  · exact ended.steps rfl
  · next room config configured =>
    let linked : Engine := { e with
      opening := false
      link := some { maxOutgoing := config.maxOutgoing, room } }
    have here := Poised.refl c linked
    have sent : linked.session.send linked.now (.connect config.connectPacket)
        = (e.session, .ok (.connect config.connectPacket)) ∨
        linked.session.send linked.now (.connect config.connectPacket)
          = (e.session, .error (.invalidState e.session.connection)) := by
      rw [Session.send]
      split
      · exact .inl rfl
      · exact .inr rfl
    refine .head (.links room configured) ?_
    obtain he | he := sent
    all_goals rw [he]
    · exact here.writeOrLose rfl (fun _ => rfl) rfl
    · exact here.toStays.lost (fun _ => rfl) _

theorem sendDisconnect_cases (e : Engine) (reason : DisconnectReason) :
    e.sendDisconnect reason = e ∨
    ∃ link room bytes, e.link = some link ∧ e.sendDisconnect reason = { e with
      link := some { link with room }
      effects := e.effects ++ [.write none (.disconnect { reason }) bytes] } := by
  unfold sendDisconnect
  cases linked : e.link with
  | none =>
    left
    simp only [put, linked]
  | some link =>
    have same : ({ e with link := some link } : Engine) = e := by rw [← linked]
    obtain ⟨-, -, bytes, -, he⟩ | ⟨-, err, he⟩ | ⟨-, -, he⟩ :=
      link.send_cases (.disconnect { reason })
    all_goals simp only [put, linked, he]
    · exact .inr ⟨link, _, _, rfl, rfl⟩
    · exact .inl same
    · exact .inl same

theorem stays_sendDisconnect (e : Engine) (reason : DisconnectReason) :
    Stays c e (e.sendDisconnect reason) := by
  have here := Stays.refl c e
  obtain he | ⟨link, room, bytes, linked, he⟩ := e.sendDisconnect_cases reason
  all_goals rw [he]
  · exact here
  · exact { here with
      maxOutgoing_eq := by rw [linked]; rfl
      effects := ⟨_, rfl, (Deed.writes rfl : Deed c e _ _).warrants⟩
      outgoing := here.outgoing
      pending := here.pending }

theorem sendDisconnect_of_unlinked (unlinked : e.link = none) (reason : DisconnectReason) :
    e.sendDisconnect reason = e := by
  simp only [sendDisconnect, put, unlinked]

theorem steps_farewell (c : Command) (e : Engine)
    (unlinked : e.session.connection = .disconnected → e.link = none) (reason : DisconnectReason)
    (cause : ConnectionError) : Steps c e ((e.sendDisconnect reason).connectionLost cause) := by
  by_cases gone : e.session.connection = .disconnected
  · rw [sendDisconnect_of_unlinked (unlinked gone), connectionLost_of_gone gone (unlinked gone)]
  · exact (e.stays_sendDisconnect reason).lost (fun h => absurd h gone) _

theorem steps_networkDown (c : Command) (e : Engine)
    (unlinked : e.session.connection = .disconnected → e.link = none) (err : TransportError) :
    Steps c e (e.networkDown err) := by
  unfold networkDown
  split
  · exact steps_farewell c e unlinked _ _
  · exact steps_farewell c e unlinked _ _
  · exact steps_connectionLost c e unlinked _

theorem parts_disconnect (e : Engine) (reason : DisconnectReason) :
    Parts c e (e.disconnect reason) := by
  have farewell : e.session.send e.now (.disconnect { reason })
      = (e.session.disconnecting, .ok (.disconnect { reason })) := rfl
  -- Whoever waits for the session to open is told, and whatever waits fails.
  have leaves : ∀ m : Engine, Persists c e m →
      (∀ call, Parts c e
        { (({ m.teardown with connectCall := none }.fail call .disconnected).failAll
          .disconnected).cleanSession with subscriptions := {} }) ∧
      Parts c e { (m.teardown.failAll .disconnected).cleanSession with subscriptions := {} } := by
    intro m persists
    have torn := persists.parts m.parts_teardown
    refine ⟨fun call => Parts.abort ?_ _ _, torn.abort _ _⟩
    exact torn.of_eq rfl rfl rfl rfl ⟨_, rfl, rfl⟩ rfl rfl id id fun _ => id
  cases hc : ({ e with supervisor := none } : Engine).isConnected with
  | true =>
    let leaving := Engine.withSession { e with supervisor := none } e.session.disconnecting
    have left : Persists c e leaving := .of_eq rfl rfl rfl nofun rfl rfl rfl rfl rfl rfl
    have written : Persists c e (leaving.write (.disconnect { reason })).1 := by
      obtain ⟨link, bytes, linked, -, -, he⟩ | ⟨link, err, -, -, he⟩ | ⟨-, err, -, he⟩ :=
        leaving.write_cases (.disconnect { reason })
      all_goals rw [he]
      · exact left.trans ⟨rfl, rfl, rfl, id, by rw [linked]; rfl,
          ⟨_, rfl, (Deed.writes rfl : Deed c leaving _ _).warrants⟩, .inr rfl,
          fun ht => .inl ⟨_, ht, rfl⟩, .inl, fun _ => .inr⟩
      all_goals exact left
    obtain ⟨told, untold⟩ := leaves _ written
    simp only [disconnect, hc, farewell]
    split
    · exact told _
    · exact untold
  | false =>
    obtain ⟨told, untold⟩ := leaves { e with supervisor := none }
      (.of_eq rfl rfl rfl id rfl rfl rfl rfl rfl rfl)
    simp only [disconnect, hc, farewell]
    split
    · exact told _
    · exact untold

theorem isSubscription_of_isAck {packet : Packet} (h : packet.isAck = true) :
    packet.isSubscription = false := by
  cases packet with
  | subscribe | unsubscribe => cases h
  | _ => rfl

theorem replied_of_unlinked (unlinked : e.link = none) (reply : Option Packet) :
    e.replied reply = e := by
  cases reply with
  | none => rfl
  | some packet => rw [replied, if_pos (by simp [unlinked])]

theorem steps_replied (c : Command) (e : Engine) {reply : Option Packet}
    (ack : ∀ packet, reply = some packet → packet.isAck = true) : Steps c e (e.replied reply) := by
  cases reply with
  | none => exact .refl
  | some packet =>
    rw [replied]
    split
    · exact .refl
    · next linked =>
      refine (Poised.refl c e).writeOrLose rfl (fun _ => ?_)
        (isSubscription_of_isAck (ack packet rfl))
      simpa [Option.isSome_iff_ne_none] using linked

def accepted (e : Engine) (config : Config) (p : ConnAck) : Engine :=
  let d := { e.cancelTimer .connect with
    session := { e.session with maxInflight := agreedInflight config p }
    keepAlive := agreedKeepAlive config p }
  if (agreedKeepAlive config p).isZero then d else d.schedule .keepAlive (agreedKeepAlive config p)

theorem steps_connected (accepts : c.IsConnAck) (connected : e.session.connection = .connected)
    {config : Config} (configured : e.config = some config) (p : ConnAck) :
    Steps c (e.accepted config p) (e.connected p) := by
  have configured' : (e.cancelTimer .connect).config = some config := configured
  let d := e.accepted config p
  have here : d.session.connection = .connected := by
    simp only [d, accepted]
    split <;> exact connected
  let stableAfter :=
    if (agreedKeepAlive config p).isZero then config.ackTimeout else agreedKeepAlive config p
  have greeted : ∀ call, Steps c d (({ d with connectCall := none }.supervise config.reconnect
      stableAfter).succeed call (.connAck p)) := fun call => by
    have supervised : Poised c d ({ d with connectCall := none }.supervise config.reconnect
        stableAfter) := .of_eq rfl rfl rfl rfl rfl rfl rfl rfl rfl rfl rfl rfl rfl
    exact (supervised.steps rfl).trans (steps_answer c _ call rfl)
  have resumed : Steps c d ((d.supervise none stableAfter).resume config.ackTimeout) := by
    have supervised : Poised c d (d.supervise none stableAfter) :=
      .of_eq rfl rfl rfl rfl rfl rfl rfl rfl rfl rfl rfl rfl rfl
    exact (supervised.steps rfl).trans
      (steps_resume accepts (d.supervise none stableAfter) here config.ackTimeout)
  simp only [Engine.connected, configured']
  split
  · exact greeted _
  · exact resumed

section

variable {w : World} {owed : CallId → Nat}

/-- What a command comes to: it is taken notice of and dealt with, or the connection is given up or
made over it. -/
def Progress (c : Command) (e d : Engine) : Prop :=
  (∃ m, Hears c e m ∧ Steps c m d) ∨ Parts c e d ∨
    ∃ config p m, Accepts config p c e m ∧ Steps c m d

theorem Hears.refl (c : Command) (e : Engine) (h : e.receivedAfter c = e.session.received) :
    Hears c e e :=
  ⟨.of_eq rfl rfl rfl id rfl rfl rfl rfl rfl rfl, rfl, h.symm, rfl, rfl, rfl, rfl, rfl, rfl, rfl⟩

theorem hears_incoming {packet : Packet} {s : Session}
    (received : (e.session.receive e.now packet).1.received = s.received)
    (connection : s.connection = e.session.connection)
    (lastOutgoing : s.lastOutgoing = e.session.lastOutgoing)
    (outgoing : ∀ {k : UInt16} {t : Transaction}, s.outgoing[k]? = some t →
      ∃ u, e.session.outgoing[k]? = some u ∧ t.packet = u.packet) :
    Hears (.incoming e.epoch packet) e (e.withSession s) := by
  have same := Persists.refl (.incoming e.epoch packet) e
  exact { same with
    effects := same.effects
    lastOutgoing := .inl lastOutgoing
    outgoing := fun ht => .inl (outgoing ht)
    pending := same.pending
    connected := connection ▸ id
    connection_eq := connection
    received_eq := by rw [receivedAfter, if_pos rfl, received]; rfl
    keepAlive_eq := rfl
    effects_eq := rfl
    lastOutgoing_eq := lastOutgoing
    timers_eq := rfl
    subscriptions_eq := rfl
    pending_eq := rfl
    backlog_eq := rfl }

def welcomed (e : Engine) : Engine :=
  e.withSession { e.session with lastIncoming := e.now, connection := .connected }

theorem SettledBut.incoming_connAck (h : Settled w owed e)
    (connecting : e.session.connection = .connecting) {p : ConnAck} (success : p.code = .success) :
    e.incoming (.connAck p) = e.welcomed.connected p := by
  let s : Session := { e.session with
    lastIncoming := e.now, connection := .connected, events := [.connected p] }
  have heard : e.session.receive e.now (.connAck p) = (s, .ok none) := by
    simp [s, Session.receive, Session.receiveConnAck, connecting, success, Session.push,
      h.ledger.events_eq]
  have quiet : e.withSession { s with events := [] } = e.welcomed := by
    simp only [s, welcomed, h.ledger.events_eq]
  rw [Engine.incoming, heard, ← quiet]
  rfl

theorem SettledBut.handle_connAck (h : Settled w owed e)
    (connecting : e.session.connection = .connecting) {p : ConnAck} (success : p.code = .success) :
    e.handle (.incoming e.epoch (.connAck p)) = e.welcomed.connected p := by
  rw [Engine.handle, if_pos rfl, h.incoming_connAck connecting success]

theorem SettledBut.accept (h : Settled w owed e) (connecting : e.session.connection = .connecting)
    {p : ConnAck} (success : p.code = .success) :
    ∃ config m, Accepts config p (.incoming e.epoch (.connAck p)) e m ∧
      Steps (.incoming e.epoch (.connAck p)) m (e.handle (.incoming e.epoch (.connAck p))) := by
  let m := e.welcomed
  obtain ⟨config, configured⟩ :=
    Option.isSome_iff_exists.1 (h.posture.config_isSome (by simp [connecting]))
  have unarmed : (e.timers.erase .connect).keepAlive = none := h.unarmed connecting .keepAlive
  have opened := h.handle_connAck connecting success
  have steps : Steps (.incoming e.epoch (.connAck p)) (m.accepted config p) (m.connected p) :=
    steps_connected (e := m) ⟨_, _, rfl⟩ rfl configured p
  refine ⟨config, m.accepted config p, ?_, opened ▸ steps⟩
  unfold accepted
  dsimp only
  split
  · next zero =>
    refine ⟨rfl, success, connecting, configured, rfl, rfl, rfl, rfl, rfl, rfl, rfl, fun a ha => ?_,
      rfl, rfl, rfl, rfl, rfl, rfl⟩
    cases unarmed.symm.trans ha
  · refine ⟨rfl, success, connecting, configured, rfl, rfl, rfl, rfl, rfl, rfl, rfl, fun a ha => ?_,
      rfl, rfl, rfl, rfl, rfl, rfl⟩
    cases ha
    rfl

theorem SettledBut.incoming_progress (h : Settled w owed e) (ho : w.opened e.epoch)
    (packet : Packet) : Progress (.incoming e.epoch packet) e (e.incoming packet) := by
  let c : Command := .incoming e.epoch packet
  let arrived : Session := { e.session with lastIncoming := e.now }
  have persists : ∀ s : Session, s.connection ≠ .connected →
      s.lastOutgoing = e.session.lastOutgoing → s.outgoing = e.session.outgoing →
      Persists c e (e.withSession s) := fun s gone lastOutgoing outgoing =>
    .of_eq rfl rfl rfl (fun h => absurd h gone) rfl rfl lastOutgoing outgoing rfl rfl
  by_cases accepting :
      e.session.connection = .connecting ∧ ∃ p, packet = .connAck p ∧ p.code = .success
  · obtain ⟨connecting, p, rfl, success⟩ := accepting
    obtain ⟨config, m, accepts, steps⟩ := h.accept connecting success
    rw [Engine.handle, if_pos rfl] at steps
    exact .inr (.inr ⟨config, p, m, accepts, steps⟩)
  obtain ⟨err, he, fails⟩ | ⟨s, events, reply, hr, he, told, accepted⟩ := h.incoming_cases packet
  · have heard : Hears c e (e.withSession arrived) :=
      hears_incoming (by rw [he]) rfl rfl fun ht => ⟨_, ht, rfl⟩
    rw [fails]
    exact .inl ⟨_, heard, steps_farewell c (e.withSession arrived) h.posture.link_eq_none _ _⟩
  · have received : (e.session.receive e.now packet).1.received = s.received := by rw [he]
    have answered : ∀ d : Engine, Steps c d (d.replied reply) := fun d =>
      steps_replied c d fun packet hp => Session.isAck_of_receive (hp ▸ he)
    have lost : ∀ s : Session, s.connection ≠ .connected →
        s.lastOutgoing = e.session.lastOutgoing → s.outgoing = e.session.outgoing →
        (s.connection = .disconnected → e.link.isSome) →
        ∀ cause, Progress c e (((e.withSession s).connectionLost cause).replied reply) := by
      intro s gone lastOutgoing outgoing alive cause
      have parts := (persists s gone lastOutgoing outgoing).parts
        ((e.withSession s).parts_connectionLost cause alive)
      rw [replied_of_unlinked parts.link_eq]
      exact .inr (.inl parts)
    rw [told]
    cases hr with
    | noted received' =>
      exact .inl ⟨_, hears_incoming received rfl rfl fun ht => ⟨_, ht, rfl⟩, answered _⟩
    | message p received' =>
      exact .inl ⟨_, hears_incoming received rfl rfl fun ht => ⟨_, ht, rfl⟩,
        (steps_dispatch c _ p).trans (answered _)⟩
    | @release k t ht hq =>
      exact .inl ⟨_, hears_incoming received rfl rfl fun hu => Session.packet_of_insert ht hu rfl,
        answered _⟩
    | @ended k t event ht ends =>
      have heard : Hears c e (e.withSession (arrived.forget k)) :=
        hears_incoming received rfl rfl fun hu => ⟨_, Session.outgoing_of_forget hu, rfl⟩
      cases event with
      | published j ack => exact .inl ⟨_, heard, (steps_published c _ j ack).trans (answered _)⟩
      | subscribed p => exact .inl ⟨_, heard, (steps_subscribed c _ p).trans (answered _)⟩
      | unsubscribed p => exact .inl ⟨_, heard, (steps_unsubscribed c _ p).trans (answered _)⟩
      | _ => exact absurd ends id
    | accepted p hc => exact absurd ⟨hc, p, accepted p rfl⟩ accepting
    | rejected p hc =>
      exact lost { arrived with connection := .disconnected } (by simp) rfl rfl
        (fun _ => h.posture.link_isSome_of_opened hc ho) _
    | pong =>
      have cancelled := (Poised.refl c (e.withSession { arrived with awaitPingResp := false })
        ).cancelTimer (by simp : Timer.pingResp ≠ .keepAlive)
      exact .inl ⟨_, hears_incoming received rfl rfl fun ht => ⟨_, ht, rfl⟩,
        (cancelled.steps rfl).trans (answered _)⟩
    | closed p =>
      have gone : arrived.disconnecting.connection = .disconnecting := rfl
      exact lost arrived.disconnecting (by simp [gone]) rfl rfl (by simp [gone]) _

theorem Progress.of_steps (h : e.receivedAfter c = e.session.received) (steps : Steps c e d) :
    Progress c e d :=
  .inl ⟨e, .refl c e h, steps⟩

theorem SettledBut.timer_progress (h : Settled w owed e) (timer : Timer) (id : Nat) :
    Progress (.timer timer id) e (e.timerFired timer id) := by
  let c : Command := .timer timer id
  have here := Poised.refl c e
  unfold Engine.timerFired
  split
  · next fires =>
    have armed : (e.timers.get? timer).isSome := by
      cases ht : e.timers.get? timer with
      | none => simp [ht] at fires
      | some a => rfl
    have wanted := (h.timers timer not_false).1 armed
    cases timer with
    | connect =>
      exact .of_steps rfl (((here.cancelTimer (by simp)).steps rfl).trans
        (steps_connectionLost c (e.cancelTimer .connect) h.posture.link_eq_none _))
    | ack k =>
      exact .of_steps rfl ((here.cancelTimer (by simp)).ackTimedOut rfl rfl wanted.1
        h.ledger.sound k)
    | keepAlive => exact .of_steps rfl (steps_keepAliveDue c e wanted.1)
    | pingResp =>
      exact .of_steps rfl (((here.cancelTimer (by simp)).steps rfl).trans
        (steps_connectionLost c (e.cancelTimer .pingResp) h.posture.link_eq_none _))
    | reconnect =>
      obtain ⟨config, configured⟩ := Option.isSome_iff_exists.1 (h.ledger.config_isSome wanted.2)
      exact .inr (.inl (parts_startAttempt (m := e.cancelTimer .reconnect) rfl rfl rfl wanted.1
        (h.posture.link_eq_none wanted.1) configured rfl (fun ht => ⟨rfl, ht⟩) rfl rfl))
  · exact .of_steps rfl .refl

theorem SettledBut.connect_progress (h : Settled w owed e) (call : CallId) (config : Config) :
    Progress (.connect call config) e (e.connect call config) := by
  unfold Engine.connect
  split
  · exact .of_steps rfl (steps_answer _ e call rfl)
  · next unsupervised =>
    split
    · exact .of_steps rfl (steps_answer _ e call rfl)
    · next gone =>
      rw [not_not] at gone
      have idle := (h.posture.idle gone (by simpa using unsupervised)).1
      let asked : Engine := { e with
        session := { e.session with maxInflight := config.inflight }
        keepAlive := config.keepAlive
        config := some config
        connectCall := some call }
      have configured : asked.config = some config := rfl
      refine .inr (.inl (parts_startAttempt rfl rfl rfl gone (h.posture.link_eq_none gone)
        configured rfl (fun {k t} ht => ?_) rfl rfl))
      cases (idle k).symm.trans ht

theorem SettledBut.progress (h : Settled w owed e) (heard : Heard w e c) :
    Progress c e (e.handle c) := by
  have unlinked := h.posture.link_eq_none
  cases c with
  | connect call config => exact h.connect_progress call config
  | call call => exact .of_steps rfl (steps_request _ e (.inl rfl))
  | disconnect call reason =>
    have parts : Parts (.disconnect call reason) e (e.disconnect reason) :=
      e.parts_disconnect reason
    exact .inr (.inl (parts.of_eq rfl rfl rfl rfl ⟨_, rfl, rfl⟩ rfl rfl id id fun _ => id))
  | cancel call => exact .of_steps rfl (steps_cancelCall _ e call)
  | opened epoch result =>
    rw [Engine.handle]
    split
    · exact .of_steps rfl (steps_opened _ e unlinked result)
    · exact .of_steps rfl .refl
  | incoming epoch packet =>
    rw [Engine.handle]
    split
    · next same =>
      subst same
      exact h.incoming_progress heard packet
    · next stale => exact .of_steps (by rw [receivedAfter, if_neg stale]) .refl
  | networkDown epoch err =>
    rw [Engine.handle]
    split
    · exact .of_steps rfl (steps_networkDown _ e unlinked err)
    · exact .of_steps rfl .refl
  | timer timer id => exact h.timer_progress timer id

end

end

end MqttClient.Engine
