import MqttClient.Proofs.Engine.Dispatch
import MqttClient.Proofs.Engine.Entries
import MqttClient.Proofs.Engine.HalfReceived
import MqttClient.Proofs.Engine.Reactions
import MqttClient.Proofs.Engine.Resubscription

/-! A filter that a call unsubscribes. Its entry goes when the call leaves the backlog, whether it
is sent or refused, and comes back only with a new subscription, so that no message is handed on for
the sake of the filter. While the call is held back, behind a full window or a lost connection, the
entry stays. -/

namespace MqttClient

def Call.unsubscribes (f : String) : Call → Bool
  | unsubscribe _ p => f ∈ p.filters
  | _ => false

namespace Call

variable {t : SubscriptionTable HandlerId} {f : String} {c : Call}

theorem get?_enter_of_unsubscribes (h : c.unsubscribes f = true) : (c.enter t).get? f = none := by
  cases c with
  | unsubscribe id p =>
    rw [enter, SubscriptionTable.get?_eraseAll, if_pos (of_decide_eq_true h)]
  | publish | subscribe => cases h

theorem get?_forgo_of_unsubscribes (h : c.unsubscribes f = true) : (c.forgo t).get? f = none := by
  cases c with
  | unsubscribe id p =>
    rw [forgo, SubscriptionTable.get?_eraseAll, if_pos (of_decide_eq_true h)]
  | publish | subscribe => cases h

theorem get?_enter_of_absent (other : c.subscribes f = false) (absent : t.get? f = none) :
    (c.enter t).get? f = none := by
  cases c with
  | publish => exact absent
  | subscribe id p handler =>
    have unnamed : f ∉ p.filters.map (·.path) := of_decide_eq_false other
    have same := t.handler?_insertAll f p.filters handler
    rw [if_neg unnamed, SubscriptionTable.handler?, SubscriptionTable.handler?, absent] at same
    exact Option.map_eq_none_iff.1 same
  | unsubscribe id p =>
    rw [enter, SubscriptionTable.get?_eraseAll, absent, ite_self]

theorem get?_forgo_of_absent (absent : t.get? f = none) : (c.forgo t).get? f = none := by
  cases c with
  | publish | subscribe => exact absent
  | unsubscribe id p =>
    rw [forgo, SubscriptionTable.get?_eraseAll, absent, ite_self]

end Call

namespace Session

variable {s s' : Session} {now : Time}

theorem connection_of_start {phase : Phase} {mk : UInt16 → Packet}
    {result : Except SessionError Packet} (h : s.start now phase mk = (s', result)) :
    s'.connection = s.connection := by
  cases result with
  | ok packet =>
    obtain ⟨k, -, -, -, -, rfl⟩ := start_eq_ok h
    rfl
  | error err =>
    obtain ⟨rfl, -⟩ := start_eq_error h
    rfl

theorem connection_of_sendPing {result : Except SessionError Packet}
    (h : s.sendPing = (s', result)) : s'.connection = s.connection := by
  unfold sendPing at h
  split at h
  · split at h <;> cases h <;> rfl
  · cases h
    rfl

theorem receive_publish_forms (s : Session) (now : Time) (q : Publish) :
    (∃ err, s.receive now (.publish q) = ({ s with lastIncoming := now }, .error err)) ∨
    (∃ reply, s.receive now (.publish q) = ({ s with lastIncoming := now }, .ok reply)) ∨
    ∃ received reply, s.receive now (.publish q) =
      (({ s with lastIncoming := now, received } : Session).push (.message q), .ok reply) := by
  simp only [receive, receivePublish]
  split
  · exact .inl ⟨_, rfl⟩
  · split
    · exact .inr (.inr ⟨s.received, _, rfl⟩)
    · exact .inr (.inr ⟨s.received, _, rfl⟩)
    · split
      · exact .inr (.inl ⟨_, rfl⟩)
      · exact .inr (.inr ⟨_, _, rfl⟩)

end Session

namespace Engine

variable {past past₀ past₁ : List Command} {e e₀ e₁ d : Engine} {c : Command} {call : Call}
  {f : String} {held : List Call → Prop}

/-- The table is cleared when the connection is lost, unless the session outlives it. -/
def Outlasts (e : Engine) : Prop :=
  e.supervisor.isSome ∨ e.session.connection = .connected ∨ e.session.connection = .disconnecting

/-- There is no entry for the filter, and nothing held back makes one; or the backlog is as it
`held`, and sees to the entry in its turn. -/
inductive Bars (f : String) (held : List Call → Prop) (e : Engine) : Prop
  | gone (entry : e.subscriptions.get? f = none)
    (backlog : ∀ call ∈ e.backlog, call.subscribes f = false) : Bars f held e
  | waits (holds : held e.backlog) (uncalled : e.connectCall = none) (outlasts : e.Outlasts) :
    Bars f held e

def Unwinds (f : String) (held : List Call → Prop) : Prop :=
  ∀ {call : Call} {rest : List Call}, held (call :: rest) →
    held rest ∨ call.unsubscribes f = true ∧ ∀ c ∈ rest, c.subscribes f = false

theorem Bars.of_eq (h : Bars f held e) (table : d.subscriptions = e.subscriptions)
    (backlog : d.backlog = e.backlog) (connectCall : d.connectCall = e.connectCall)
    (supervisor : d.supervisor.isSome = e.supervisor.isSome)
    (connection : d.session.connection = e.session.connection) : Bars f held d := by
  cases h with
  | gone entry quiet => exact .gone (table ▸ entry) (backlog ▸ quiet)
  | waits holds uncalled outlasts =>
    refine .waits (backlog ▸ holds) (connectCall.trans uncalled) ?_
    rwa [Outlasts, supervisor, connection]

theorem Bars.withSession (h : Bars f held e) {s : Session}
    (connection : s.connection = e.session.connection) : Bars f held (e.withSession s) :=
  h.of_eq rfl rfl rfl rfl connection

theorem Bars.unsubscribeAll (h : Bars f held e) (paths : List String) :
    Bars f held (e.unsubscribeAll paths) := by
  cases h with
  | gone entry quiet =>
    refine .gone ?_ quiet
    rw [Engine.unsubscribeAll, SubscriptionTable.get?_eraseAll, entry, ite_self]
  | waits holds uncalled outlasts => exact .waits holds uncalled outlasts

theorem Bars.failPending (h : Bars f held e) (p : Pending) (err : ClientError) :
    Bars f held (e.failPending p err) := by
  unfold Engine.failPending
  split
  · exact h.of_eq rfl rfl rfl rfl rfl
  · exact h

theorem Bars.write (h : Bars f held e) {packet : Packet} {result : Except TransportError Unit}
    (wrote : e.write packet = (d, result)) : Bars f held d := by
  obtain ⟨link, bytes, -, -, -, he⟩ | ⟨link, err, -, -, he⟩ | ⟨-, err, -, he⟩ :=
    e.write_cases packet
  all_goals cases wrote.symm.trans he
  · exact h.of_eq rfl rfl rfl rfl rfl
  · exact h
  · exact h

theorem bars_cleared (e : Engine) (err : ClientError) :
    Bars f held { (e.failAll err).cleanSession with subscriptions := {} } := by
  rw [failAll_eq]
  exact .gone Std.TreeMap.getElem?_emptyc (List.forall_mem_nil _)

theorem Bars.connectionLost (h : Bars f held e) (cause : ConnectionError) :
    Bars f held (e.connectionLost cause) := by
  obtain ⟨effects, -, torn⟩ := e.teardown_eq
  unfold Engine.connectionLost
  split
  · exact h
  dsimp only
  split
  · next call _ calls =>
    rw [failAll_eq]
    cases h with
    | gone entry quiet =>
      refine .gone ?_ (List.forall_mem_nil _)
      rw [torn]
      exact entry
    | waits holds uncalled outlasts =>
      rw [torn, uncalled] at calls
      cases calls
  · next backoff _ supervised =>
    rw [torn] at supervised ⊢
    cases h with
    | gone entry quiet => exact .gone entry quiet
    | waits holds uncalled outlasts => exact .waits holds uncalled (.inl rfl)
  · exact bars_cleared _ _

theorem Bars.writeOrLose (h : Bars f held e) (packet : Packet) :
    Bars f held (e.writeOrLose packet) := by
  unfold Engine.writeOrLose
  split
  · next he => exact h.write he
  · next he => exact (h.write he).connectionLost _

theorem Bars.dropPending (h : Bars f held e) (k : UInt16) (p : Pending) (err : ClientError) :
    Bars f held (e.dropPending k p err) := by
  rw [dropPending_eq]
  cases p with
  | subscribe id paths => exact (h.unsubscribeAll paths).of_eq rfl rfl rfl rfl rfl
  | publish | unsubscribe | resubscribe => exact h.of_eq rfl rfl rfl rfl rfl

theorem Bars.transmit (h : Bars f held e) (k : UInt16) (packet : Packet) (p : Pending) :
    Bars f held (e.transmit k packet p) := by
  have waiting : Bars f held { e with pending := e.pending.insert k p } :=
    h.of_eq rfl rfl rfl rfl rfl
  unfold Engine.transmit
  split
  · next he => exact (waiting.write he).of_eq rfl rfl rfl rfl rfl
  · next he => exact (waiting.write he).dropPending k p _
  · next he => exact (waiting.write he).connectionLost _

theorem Bars.sendUnacknowledged (h : Bars f held e) (id : CallId) (packet : Packet) :
    Bars f held (e.sendUnacknowledged id packet) := by
  unfold Engine.sendUnacknowledged
  split
  · next he => exact (h.write he).of_eq rfl rfl rfl rfl rfl
  · next he => exact (h.write he).of_eq rfl rfl rfl rfl rfl
  · next d _ _ he =>
    have told : Bars f held (d.fail id .notConnected) := (h.write he).of_eq rfl rfl rfl rfl rfl
    exact told.connectionLost _

theorem Bars.sendCall (connected : e.session.connection = .connected)
    (entered : Bars f held { e with subscriptions := call.enter e.subscriptions })
    (forgone : Bars f held { e with subscriptions := call.forgo e.subscriptions }) :
    Bars f held (e.sendCall call) := by
  obtain ⟨id, p, rfl, he⟩ | ⟨k, packet, phase, -, -, he⟩ | he := sendCall_forms connected call
  all_goals rw [he]
  · exact Bars.sendUnacknowledged entered id _
  · have opened : Bars f held ({ e with subscriptions := call.enter e.subscriptions }.withSession
        (e.session.track e.now k packet phase)) := entered.of_eq rfl rfl rfl rfl rfl
    exact opened.transmit k packet call.pending
  · exact forgone.of_eq rfl rfl rfl rfl rfl

theorem Bars.sendFront (unwinds : Unwinds f held) (h : Bars f held e)
    (connected : e.session.connection = .connected) {rest : List Call}
    (waiting : e.backlog = call :: rest) :
    Bars f held (({ e with backlog := rest } : Engine).sendCall call) := by
  cases h with
  | gone entry quiet =>
    rw [waiting] at quiet
    have other := quiet call List.mem_cons_self
    have later := fun c hm => quiet c (List.mem_cons_of_mem call hm)
    exact .sendCall connected (.gone (Call.get?_enter_of_absent other entry) later)
      (.gone (Call.get?_forgo_of_absent entry) later)
  | waits holds uncalled outlasts =>
    obtain kept | ⟨ends, quiet⟩ := unwinds (waiting ▸ holds)
    · exact .sendCall connected (.waits kept uncalled outlasts) (.waits kept uncalled outlasts)
    · exact .sendCall connected (.gone (Call.get?_enter_of_unsubscribes ends) quiet)
        (.gone (Call.get?_forgo_of_unsubscribes ends) quiet)

theorem Bars.drainBacklog (unwinds : Unwinds f held) (h : Bars f held e) :
    Bars f held e.drainBacklog :=
  drainLoop_induction (motive := Bars f held) e.backlog.length h
    fun _ _ _ here connected _ waiting => here.sendFront unwinds connected waiting

theorem Bars.published (unwinds : Unwinds f held) (h : Bars f held e) (k : UInt16)
    (ack : PublishAck) : Bars f held (e.published k ack) := by
  have gone : Bars f held ((e.cancelTimer (.ack k)).erasePending k) := h.of_eq rfl rfl rfl rfl rfl
  unfold Engine.published
  refine Bars.drainBacklog unwinds ?_
  split
  · exact gone.of_eq rfl rfl rfl rfl rfl
  · exact gone.failPending _ _
  · exact gone

theorem Bars.subscribed (unwinds : Unwinds f held) (h : Bars f held e) (p : SubAck) :
    Bars f held (e.subscribed p) := by
  have gone : Bars f held ((e.cancelTimer (.ack p.packetId)).erasePending p.packetId) :=
    h.of_eq rfl rfl rfl rfl rfl
  unfold Engine.subscribed
  refine Bars.drainBacklog unwinds ?_
  split
  · exact (gone.unsubscribeAll _).of_eq rfl rfl rfl rfl rfl
  · exact gone.unsubscribeAll _
  · exact gone.failPending _ _
  · exact gone

theorem Bars.unsubscribed (unwinds : Unwinds f held) (h : Bars f held e) (p : UnsubAck) :
    Bars f held (e.unsubscribed p) := by
  have gone : Bars f held ((e.cancelTimer (.ack p.packetId)).erasePending p.packetId) :=
    h.of_eq rfl rfl rfl rfl rfl
  unfold Engine.unsubscribed
  refine Bars.drainBacklog unwinds ?_
  split
  · exact gone.of_eq rfl rfl rfl rfl rfl
  · exact gone.failPending _ _
  · exact gone

theorem Bars.resubscribe (h : Bars f held e) : Bars f held e.resubscribe := by
  unfold Engine.resubscribe
  split
  · exact h
  dsimp only
  split
  · next s packet hs =>
    exact (h.withSession (Session.connection_of_start hs)).transmit _ _ _
  · next s err hs => exact h.withSession (Session.connection_of_start hs)

theorem Bars.replayAll (h : Bars f held e) (ackTimeout : Duration) (packets : List Packet) :
    Bars f held (e.replayAll ackTimeout packets).1 := by
  induction packets generalizing e with
  | nil => exact h
  | cons packet rest ih =>
    rw [Engine.replayAll]
    split
    · next he => exact ih ((h.write he).of_eq rfl rfl rfl rfl rfl)
    · next he => exact (h.write he).connectionLost _

theorem Bars.resume (unwinds : Unwinds f held) (h : Bars f held e) (ackTimeout : Duration) :
    Bars f held (e.resume ackTimeout) := by
  have taken : Bars f held (e.withSession (e.session.replay e.now).1) := h.withSession rfl
  have replayed := taken.replayAll ackTimeout (e.session.replay e.now).2
  unfold Engine.resume
  dsimp only
  split
  · next he =>
    rw [he] at replayed
    exact replayed.resubscribe.drainBacklog unwinds
  · next he =>
    rw [he] at replayed
    exact replayed

theorem Bars.supervise (h : Bars f held e) (options : Option ReconnectOptions)
    (stableAfter : Duration) : Bars f held (e.supervise options stableAfter) := by
  cases h with
  | gone entry quiet => exact .gone entry quiet
  | waits holds uncalled outlasts =>
    refine .waits holds uncalled (outlasts.imp_left fun supervised => ?_)
    cases options <;> simp [Engine.supervise, supervised]

theorem Bars.connected (unwinds : Unwinds f held) (h : Bars f held e) (p : ConnAck) :
    Bars f held (e.connected p) := by
  unfold Engine.connected
  dsimp only
  split
  · exact h.of_eq rfl rfl rfl rfl rfl
  · next config _ =>
    let agreed : Engine := { (e.cancelTimer .connect).withSession
      { e.session with maxInflight := agreedInflight config p } with
      keepAlive := agreedKeepAlive config p }
    have started : Bars f held agreed := h.of_eq rfl rfl rfl rfl rfl
    have armed : Bars f held (if agreed.keepAlive.isZero then agreed
        else agreed.schedule .keepAlive agreed.keepAlive) := by
      split
      · exact started
      · exact started.of_eq rfl rfl rfl rfl rfl
    split
    · have met : ∀ d : Engine, Bars f held d → Bars f held { d with connectCall := none } := by
        rintro d (⟨entry, quiet⟩ | ⟨holds, -, outlasts⟩)
        · exact .gone entry quiet
        · exact .waits holds rfl outlasts
      exact ((met _ armed).supervise _ _).of_eq rfl rfl rfl rfl rfl
    · exact (armed.supervise _ _).resume unwinds _

theorem Bars.dispatch (h : Bars f held e) (p : Publish) : Bars f held (e.dispatch p) := by
  rw [dispatch_eq]
  exact h.of_eq rfl rfl rfl rfl rfl

theorem Bars.handleEvent (unwinds : Unwinds f held) (h : Bars f held e) (event : Event) :
    Bars f held (e.handleEvent event) := by
  cases event with
  | connected p => exact h.connected unwinds p
  | published k ack => exact h.published unwinds k ack
  | subscribed p => exact h.subscribed unwinds p
  | unsubscribed p => exact h.unsubscribed unwinds p
  | message p => exact h.dispatch p
  | pingResp => exact h.of_eq rfl rfl rfl rfl rfl
  | rejected | disconnected => exact h.connectionLost _

theorem Bars.handleEvents (unwinds : Unwinds f held) (h : Bars f held e) :
    Bars f held e.handleEvents := by
  have taken : Bars f held (e.withSession e.session.takeEvents.2) := h.withSession rfl
  have told : ∀ (events : List Event) {d : Engine}, Bars f held d →
      Bars f held (events.foldl Engine.handleEvent d) := by
    intro events
    induction events with
    | nil => exact id
    | cons event rest ih => exact fun here => ih (here.handleEvent unwinds event)
  exact told _ taken

theorem Bars.sendDisconnect (h : Bars f held e) (reason : DisconnectReason) :
    Bars f held (e.sendDisconnect reason) := by
  obtain he | ⟨link, room, bytes, -, he⟩ := e.sendDisconnect_cases reason
  all_goals rw [he]
  · exact h
  · exact h.of_eq rfl rfl rfl rfl rfl

theorem Bars.receive (h : Bars f held e) (sound : e.session.IsSound) (packet : Packet) :
    Bars f held (e.withSession (e.session.receive e.now packet).1) := by
  obtain ⟨err, he⟩ | ⟨s, events, reply, hr, he⟩ := Session.receive_cases sound e.now packet
  all_goals rw [he]
  · exact h.withSession rfl
  · cases h with
    | gone entry quiet => exact .gone entry quiet
    | waits holds uncalled outlasts =>
      refine .waits holds uncalled ?_
      have supervised : e.session.connection = .connecting → e.supervisor.isSome := by
        intro connecting
        simpa [Outlasts, connecting] using outlasts
      cases hr with
      | accepted p hc => exact .inl (supervised hc)
      | rejected p hc => exact .inl (supervised hc)
      | closed => exact .inr (.inr rfl)
      | noted | message | release | ended | pong => exact outlasts

theorem Bars.incoming (unwinds : Unwinds f held) (h : Bars f held e) (sound : e.session.IsSound)
    (packet : Packet) : Bars f held (e.incoming packet) := by
  have heard := h.receive sound packet
  unfold Engine.incoming
  split
  · next he =>
    rw [he] at heard
    exact (heard.sendDisconnect _).connectionLost _
  · next he =>
    rw [he] at heard
    have told := heard.handleEvents unwinds
    dsimp only
    split
    · exact told
    · split
      · exact told
      · exact told.writeOrLose _

theorem Bars.networkDown (h : Bars f held e) (err : TransportError) :
    Bars f held (e.networkDown err) := by
  unfold Engine.networkDown
  split
  · exact (h.sendDisconnect _).connectionLost _
  · exact (h.sendDisconnect _).connectionLost _
  · exact h.connectionLost _

theorem Bars.expire (unwinds : Unwinds f held) (h : Bars f held e) (k : UInt16)
    (policy : TimeoutPolicy) : Bars f held (e.expire k policy) := by
  have erased : Bars f held (e.erasePending k) := h.of_eq rfl rfl rfl rfl rfl
  have told : ∃ d, Bars f held d ∧ e.expire k .drop = d.drainBacklog ∧
      e.expire k .reset = d.connectionLost (.transactionTimeout k) := by
    unfold Engine.expire
    dsimp only
    split
    · refine ⟨_, ?_, rfl, rfl⟩
      exact erased.of_eq rfl rfl rfl rfl rfl
    · next id paths _ =>
      refine ⟨_, ?_, rfl, rfl⟩
      exact (erased.unsubscribeAll paths).of_eq rfl rfl rfl rfl rfl
    · exact ⟨_, erased.failPending _ _, rfl, rfl⟩
    · exact ⟨_, erased, rfl, rfl⟩
  obtain ⟨d, told, dropped, reset⟩ := told
  cases policy with
  | drop => exact dropped ▸ told.drainBacklog unwinds
  | reset => exact reset ▸ told.connectionLost _

theorem Bars.ackTimedOut (unwinds : Unwinds f held) (h : Bars f held e) (k : UInt16) :
    Bars f held (e.ackTimedOut k) := by
  unfold Engine.ackTimedOut
  split
  · exact Bars.drainBacklog unwinds (h.of_eq rfl rfl rfl rfl rfl)
  split
  · exact h
  next config _ =>
  obtain ⟨-, he⟩ | ⟨t, -, he | ⟨-, he⟩⟩ :=
    Session.retransmit_cases e.session e.now k config.maxRetries
  all_goals rw [he]
  · exact h
  · have ended : Bars f held (e.withSession (e.session.forget k)) := h.withSession rfl
    exact ended.expire unwinds k config.timeoutPolicy
  · have again : Bars f held (e.withSession { e.session with
        outgoing := e.session.outgoing.insert k
          { t with retries := t.retries + 1, lastSent := e.now } }) := h.withSession rfl
    dsimp only
    split
    · next he => exact (again.write he).of_eq rfl rfl rfl rfl rfl
    · next he => exact (again.write he).connectionLost _

theorem Bars.keepAliveDue (h : Bars f held e) : Bars f held e.keepAliveDue := by
  have sent := fun s result (he : e.session.send e.now .pingReq = (s, result)) =>
    h.withSession (Session.connection_of_sendPing he)
  unfold Engine.keepAliveDue
  dsimp only
  split
  · exact h.of_eq rfl rfl rfl rfl rfl
  split
  · next he => exact (sent _ _ he).connectionLost _
  · next he => exact (sent _ _ he).connectionLost _
  · next s packet he =>
    split
    · next wrote => exact ((sent _ _ he).write wrote).connectionLost _
    · next wrote => exact ((sent _ _ he).write wrote).of_eq rfl rfl rfl rfl rfl

theorem Bars.startAttempt (h : Bars f held e) : Bars f held e.startAttempt := by
  unfold Engine.startAttempt
  split
  · exact h
  split
  · exact h
  next s hs =>
  cases h with
  | gone entry quiet => exact .gone entry quiet
  | waits holds uncalled outlasts =>
    unfold Session.connecting at hs
    split at hs
    · next disconnected =>
      have supervised : e.supervisor.isSome := by simpa [Outlasts, disconnected] using outlasts
      exact .waits holds uncalled (.inl supervised)
    · cases hs

theorem Bars.timerFired (unwinds : Unwinds f held) (h : Bars f held e) (timer : Timer) (id : Nat) :
    Bars f held (e.timerFired timer id) := by
  have disarmed : Bars f held (e.cancelTimer timer) := h.of_eq rfl rfl rfl rfl rfl
  unfold Engine.timerFired
  split
  · dsimp only
    cases timer with
    | connect | pingResp => exact disarmed.connectionLost _
    | ack k => exact disarmed.ackTimedOut unwinds k
    | keepAlive => exact disarmed.keepAliveDue
    | reconnect => exact disarmed.startAttempt
  · exact h

theorem Bars.opened (h : Bars f held e) (result : Except TransportError (Option Nat)) :
    Bars f held (e.opened result) := by
  have ended : Bars f held { e with opening := false } := h.of_eq rfl rfl rfl rfl rfl
  unfold Engine.opened
  dsimp only
  split
  · exact ended.connectionLost _
  · exact ended
  · next _ _ room config _ =>
    have linked : Bars f held { e with
        opening := false
        link := some { maxOutgoing := config.maxOutgoing, room } } := h.of_eq rfl rfl rfl rfl rfl
    have asked : e.session.send e.now (.connect config.connectPacket)
        = if e.session.connection = .connecting
          then (e.session, .ok (.connect config.connectPacket))
          else (e.session, .error (.invalidState e.session.connection)) := rfl
    rw [asked]
    split_ifs
    · exact linked.writeOrLose _
    · exact linked.connectionLost _

theorem Bars.connect (h : Bars f held e) (id : CallId) (config : Config) :
    Bars f held (e.connect id config) := by
  unfold Engine.connect
  split
  · exact h.of_eq rfl rfl rfl rfl rfl
  split
  · exact h.of_eq rfl rfl rfl rfl rfl
  next unsupervised gone =>
  cases h with
  | gone entry quiet => exact Bars.startAttempt (.gone entry quiet)
  | waits holds uncalled outlasts =>
    rw [not_not] at gone
    have supervised : e.supervisor.isSome := by simpa [Outlasts, gone] using outlasts
    exact absurd supervised unsupervised

theorem bars_disconnect (e : Engine) (reason : DisconnectReason) :
    Bars f held (e.disconnect reason) := by
  obtain ⟨said, lastOutgoing, -, -, -, he⟩ := e.disconnect_eq reason
  rw [he]
  exact .gone Std.TreeMap.getElem?_emptyc (List.forall_mem_nil _)

theorem Bars.cancelCall (unwinds : Unwinds f held) (h : Bars f held e) (id : CallId)
    (kept : held e.backlog → held (e.backlog.filter (·.id != id))) :
    Bars f held (e.cancelCall id) := by
  unfold Engine.cancelCall
  split
  · exact Bars.drainBacklog unwinds (h.of_eq rfl rfl rfl rfl rfl)
  · cases h with
    | gone entry quiet =>
      exact .gone entry fun call hm => quiet call (List.mem_of_mem_filter hm)
    | waits holds uncalled outlasts => exact .waits (kept holds) uncalled outlasts

theorem Bars.request (h : Bars f held e) (other : call.subscribes f = false)
    (joins : held e.backlog → held (e.backlog ++ [call])) :
    Bars f held (e.request call false) := by
  obtain ⟨connected, -, he⟩ | ⟨-, he⟩ | ⟨-, -, he⟩ := e.request_forms call
  all_goals rw [he]
  · cases h with
    | gone entry quiet =>
      exact .sendCall connected (.gone (Call.get?_enter_of_absent other entry) quiet)
        (.gone (Call.get?_forgo_of_absent entry) quiet)
    | waits holds uncalled outlasts =>
      exact .sendCall connected (.waits holds uncalled outlasts) (.waits holds uncalled outlasts)
  · cases h with
    | gone entry quiet =>
      exact .gone entry (List.forall_mem_append.2 ⟨quiet, List.forall_mem_singleton.2 other⟩)
    | waits holds uncalled outlasts => exact .waits (joins holds) uncalled outlasts
  · exact h.of_eq rfl rfl rfl rfl rfl

theorem Bars.handle (unwinds : Unwinds f held) (h : Bars f held e) (sound : e.session.IsSound)
    (requests : ∀ call, c = .call call → Bars f held (e.request call false))
    (kept : ∀ id, c = .cancel id → held e.backlog → held (e.backlog.filter (·.id != id))) :
    Bars f held (e.handle c) := by
  cases c with
  | connect id config => exact h.connect id config
  | call call => exact requests call rfl
  | disconnect id reason => exact (e.bars_disconnect reason).of_eq rfl rfl rfl rfl rfl
  | cancel id => exact h.cancelCall unwinds id (kept id rfl)
  | timer timer id => exact h.timerFired unwinds timer id
  | opened n result =>
    rw [Engine.handle]
    split
    · exact h.opened result
    · exact h
  | incoming n packet =>
    rw [Engine.handle]
    split
    · exact h.incoming unwinds sound packet
    · exact h
  | networkDown n err =>
    rw [Engine.handle]
    split
    · exact h.networkDown err
    · exact h

theorem Bars.drift (h : Bars f held e) (drifts : Drifts e d) : Bars f held d := by
  cases drifts <;> exact h.of_eq rfl rfl rfl rfl rfl

theorem unwinds_true (f : String) : Unwinds f fun _ => True := fun _ => .inl trivial

theorem Reachable.uncalled (h : Reachable past e)
    (lasting : e.session.connection = .connected ∨ e.supervisor.isSome) : e.connectCall = none := by
  have settled := h.accounted.settled
  obtain connected | supervised := lasting
  · exact settled.posture.connectCall_eq (by simp [connected])
  · by_contra called
    have unsupervised := settled.ledger.supervisor_eq (Option.isSome_iff_ne_none.2 called)
    rw [unsupervised] at supervised
    cases supervised

theorem Reachable.bars (h : Reachable past e) (f : String) : Bars f (fun _ => True) e := by
  induction h with
  | start => exact .gone Std.TreeMap.getElem?_emptyc (List.forall_mem_nil _)
  | @handle past e c reached possible before =>
    refine before.handle (unwinds_true f) reached.accounted.settled.ledger.sound
      (fun call hc => ?_) fun _ _ _ => trivial
    obtain ⟨connected, -, he⟩ | ⟨lasting, he⟩ | ⟨-, -, he⟩ := e.request_forms call
    all_goals rw [he]
    · have uncalled := reached.uncalled (.inl connected)
      have outlasts : e.Outlasts := .inr (.inl connected)
      exact .sendCall connected (.waits trivial uncalled outlasts)
        (.waits trivial uncalled outlasts)
    · refine .waits trivial (reached.uncalled lasting) ?_
      exact lasting.symm.imp_right .inl
    · exact before.of_eq rfl rfl rfl rfl rfl
  | clock now _ before => exact before.drift (.clock now)
  | draw draw _ before => exact before.drift (.draw draw)
  | room room _ before => exact before.drift (.room room)
  | abandon call _ before => exact before.drift (.abandon call)

def HasLastWord (f : String) (call : Call) (backlog : List Call) : Prop :=
  ∃ pre post, backlog = pre ++ call :: post ∧ ∀ c ∈ post, c.subscribes f = false

theorem unwinds_hasLastWord (ends : call.unsubscribes f = true) :
    Unwinds f (HasLastWord f call) := by
  rintro first rest ⟨pre, post, he, quiet⟩
  cases pre with
  | nil =>
    cases he
    exact .inr ⟨ends, quiet⟩
  | cons _ pre =>
    cases he
    exact .inl ⟨pre, post, rfl, quiet⟩

theorem HasLastWord.concat {backlog : List Call} (h : HasLastWord f call backlog) {later : Call}
    (other : later.subscribes f = false) : HasLastWord f call (backlog ++ [later]) := by
  obtain ⟨pre, post, rfl, quiet⟩ := h
  exact ⟨pre, post ++ [later], by simp,
    List.forall_mem_append.2 ⟨quiet, List.forall_mem_singleton.2 other⟩⟩

theorem HasLastWord.filter {backlog : List Call} (h : HasLastWord f call backlog) {id : CallId}
    (other : call.id ≠ id) : HasLastWord f call (backlog.filter (·.id != id)) := by
  obtain ⟨pre, post, rfl, quiet⟩ := h
  refine ⟨pre.filter (·.id != id), post.filter (·.id != id), by simp [other], fun c hm => ?_⟩
  exact quiet c (List.mem_of_mem_filter hm)

/-- The run goes on without a subscription of the filter, and the call is not cancelled while it is
held back. -/
inductive Abstains (f : String) (call : Call) (past₁ : List Command) (e₁ : Engine) :
    List Command → Engine → Prop
  | refl : Abstains f call past₁ e₁ past₁ e₁
  | handle {past : List Command} {e : Engine} {c : Command}
    (run : Abstains f call past₁ e₁ past e) (possible : Possible past e c)
    (other : ∀ later, c = .call later → later.subscribes f = false)
    (kept : c = .cancel call.id → call ∉ e.backlog) :
    Abstains f call past₁ e₁ (past ++ [c]) (e.handle c)
  | drift {past : List Command} {e d : Engine} (run : Abstains f call past₁ e₁ past e) (drifts : Drifts e d) :
    Abstains f call past₁ e₁ past d

theorem Abstains.leads (h : Abstains f call past₁ e₁ past e) : Leads past₁ e₁ past e := by
  induction h with
  | refl => exact .refl
  | handle _ possible _ _ ih => exact .handle ih possible
  | drift _ drifts ih => exact .drift ih drifts

theorem Reachable.bars_unsubscribe (h : Reachable past e) {id : CallId} {p : Unsubscribe}
    (named : f ∈ p.filters) : Bars f (HasLastWord f (.unsubscribe id p))
      (e.request (.unsubscribe id p) false) := by
  have ends : (Call.unsubscribe id p).unsubscribes f = true := decide_eq_true named
  obtain ⟨connected, front, he⟩ | ⟨lasting, he⟩ | ⟨apart, unplanned, he⟩ :=
    e.request_forms (.unsubscribe id p)
  all_goals rw [he]
  · have quiet : ∀ call ∈ e.backlog, call.subscribes f = false := by simp [front rfl]
    exact .sendCall connected (.gone (Call.get?_enter_of_unsubscribes ends) quiet)
      (.gone (Call.get?_forgo_of_unsubscribes ends) quiet)
  · refine .waits ⟨e.backlog, [], rfl, List.forall_mem_nil _⟩ (h.uncalled lasting) ?_
    exact lasting.symm.imp_right .inl
  · cases h.bars f with
    | gone entry quiet => exact .gone entry quiet
    | waits _ _ outlasts =>
      have parted := h.accounted.settled.posture.connection_ne
      simp [Outlasts, unplanned rfl, apart, parted] at outlasts

theorem Abstains.bars (h : Abstains f call past₁ e₁ past e) (run : Reachable past₁ e₁)
    (ends : call.unsubscribes f = true) (start : Bars f (HasLastWord f call) e₁) :
    Bars f (HasLastWord f call) e := by
  induction h with
  | refl => exact start
  | @handle past e c abstains possible other kept before =>
    have sound := (abstains.leads.reachable run).accounted.settled.ledger.sound
    refine before.handle (unwinds_hasLastWord ends) sound (fun later hc => ?_) fun id hc holds => ?_
    · exact before.request (other later hc) fun holds => holds.concat (other later hc)
    · refine holds.filter fun same => ?_
      obtain ⟨pre, post, he, -⟩ := holds
      exact kept (same ▸ hc) (by simp [he])
  | drift _ drifts before => exact before.drift drifts

theorem delivered_sendDisconnect (e : Engine) (reason : DisconnectReason) :
    (e.sendDisconnect reason).delivered = e.delivered := by
  obtain he | ⟨link, room, bytes, -, he⟩ := e.sendDisconnect_cases reason
  all_goals rw [he]
  simp [delivered, Effect.delivery?]

theorem delivered_message (quiet : e.session.events = []) (n : Nat) (q : Publish) :
    ∃ handlers : List HandlerId, handlers ⊆ e.subscriptions.handlersOf q.topic ∧
      (e.handle (.incoming n (.publish q))).delivered =
        e.delivered ++ handlers.map fun h => (h, .ofPublish q) := by
  have nobody : ∀ {d : Engine}, d.delivered = e.delivered → ∃ handlers : List HandlerId,
      handlers ⊆ e.subscriptions.handlersOf q.topic ∧
      d.delivered = e.delivered ++ handlers.map fun h => (h, .ofPublish q) := fun same =>
    ⟨[], List.nil_subset _, same.trans (List.append_nil _).symm⟩
  rw [handle]
  split
  · let arrived : Session := { e.session with lastIncoming := e.now }
    rw [incoming]
    obtain ⟨err, he⟩ | ⟨reply, he⟩ | ⟨received, reply, he⟩ :=
      e.session.receive_publish_forms e.now q
    all_goals rw [he]
    · refine nobody ?_
      rw [delivered_connectionLost, delivered_sendDisconnect]
      rfl
    · refine nobody ?_
      change (Engine.replied (e.withSession arrived).handleEvents reply).delivered = _
      rw [delivered_replied, handleEvents]
      simp [Session.takeEvents, withSession, arrived, quiet, delivered]
    · refine ⟨_, List.Subset.refl _, ?_⟩
      change (Engine.replied (e.withSession
        (({ arrived with received } : Session).push (.message q))).handleEvents reply).delivered = _
      rw [delivered_replied, handleEvents]
      simp [Session.takeEvents, Session.push, withSession, arrived, quiet, handleEvent, dispatch_eq,
        delivered, List.filterMap_map, Function.comp_def, Effect.delivery?]
  · exact nobody rfl

def Entitles (e : Engine) (f : String) (x : HandlerId × Message) : Prop :=
  ∃ s, e.subscriptions.get? f = some s ∧ s.handler = x.1 ∧ Topic.isMatch x.2.topic f = true

/-- Once an unsubscription is no longer held back, and as long as no later call subscribes the
filter, the filter has no entry: a message runs the handlers of other filters only, whatever else
happens on this connection or on later ones. -/
theorem delivered_of_unsubscribed {past₀ past : List Command} {e₀ e : Engine} {f : String}
    {id : CallId} {p : Unsubscribe} (run : Reachable past₀ e₀)
    (possible : Possible past₀ e₀ (.call (.unsubscribe id p))) (named : f ∈ p.filters)
    (abstains : Abstains f (.unsubscribe id p) (past₀ ++ [.call (.unsubscribe id p)])
      (e₀.handle (.call (.unsubscribe id p))) past e)
    (left : .unsubscribe id p ∉ e.backlog) (n : Nat) (q : Publish) :
    ∃ new, (e.handle (.incoming n (.publish q))).delivered = e.delivered ++ new ∧
      ∀ x ∈ new, ¬ e.Entitles f x ∧ ∃ g, e.Entitles g x := by
  have told := run.handle possible
  have ends : (Call.unsubscribe id p).unsubscribes f = true := decide_eq_true named
  have gone : e.subscriptions.get? f = none := by
    cases abstains.bars told ends (run.bars_unsubscribe named) with
    | gone entry => exact entry
    | waits holds =>
      obtain ⟨pre, post, he, -⟩ := holds
      exact absurd (by simp [he]) left
  have quiet := (abstains.leads.reachable told).accounted.settled.ledger.events_eq
  obtain ⟨handlers, le, he⟩ := delivered_message quiet n q
  refine ⟨_, he, List.forall_mem_map.2 fun h hm => ⟨?_, ?_⟩⟩
  · rintro ⟨s, entry, -⟩
    cases gone.symm.trans entry
  · obtain ⟨g, s, entry, isMatch, same⟩ := SubscriptionTable.mem_handlersOf.1 (le hm)
    exact ⟨g, s, entry, same, isMatch⟩

def narrow : Config :=
  { clientId := "", host := "h", port := 1883, inflight := 1
    one_le_inflight := Config.one_le_one }

def occupied : List Command :=
  [.connect 0 narrow, .opened 1 (.ok none),
    .incoming 1 (.connAck { sessionPresent := false, code := .success }),
    .call (.subscribe 1 { filters := [{ path := "a", qos := .atMostOnce }] } 0),
    .incoming 1 (.subAck { packetId := 1, returnCodes := [.success .atMostOnce] }),
    .call (.publish 2 { qos := .atLeastOnce, topic := "t", payload := [] })]

def farewell : Unsubscribe := { filters := ["a"] }

def bulletin : Publish := { qos := .atMostOnce, topic := "a", payload := [] }

theorem reachable_occupied : Reachable occupied (occupied.foldl handle {}) :=
  reachable_of_isRun (by decide +kernel)

theorem possible_farewell :
    Possible occupied (occupied.foldl handle {}) (.call (.unsubscribe 3 farewell)) :=
  possible_of_isPossible (by decide +kernel)

def relieved : Command := .incoming 1 (.pubAck { packetId := 2, reason := .success })

theorem delivered_relieved :
    let e₁ := (occupied.foldl handle {}).handle (.call (.unsubscribe 3 farewell))
    let e := e₁.handle relieved
    Abstains "a" (.unsubscribe 3 farewell) (occupied ++ [.call (.unsubscribe 3 farewell)]) e₁
        (occupied ++ [.call (.unsubscribe 3 farewell)] ++ [relieved]) e ∧
      .unsubscribe 3 farewell ∉ e.backlog ∧
      ∃ new, (e.handle (.incoming 1 (.publish bulletin))).delivered = e.delivered ++ new ∧
        ∀ x ∈ new, ¬ e.Entitles "a" x ∧ ∃ g, e.Entitles g x := by
  intro e₁ e
  have abstains : Abstains "a" (.unsubscribe 3 farewell)
      (occupied ++ [.call (.unsubscribe 3 farewell)]) e₁
      (occupied ++ [.call (.unsubscribe 3 farewell)] ++ [relieved]) e :=
    .handle .refl (possible_of_isPossible (by decide +kernel)) (by simp [relieved])
      (by simp [relieved])
  have left : .unsubscribe 3 farewell ∉ e.backlog := by decide +kernel
  exact ⟨abstains, left, delivered_of_unsubscribed reachable_occupied possible_farewell
    (by simp [farewell]) abstains left 1 bulletin⟩

/-- While the unsubscription is held back, messages of the filter are handed on for its sake. -/
theorem not_delivered_of_unsubscribed :
    ¬ ∀ past₀ past e₀ e f id p n q, Reachable past₀ e₀ →
      Possible past₀ e₀ (.call (.unsubscribe id p)) → f ∈ p.filters →
      Abstains f (.unsubscribe id p) (past₀ ++ [.call (.unsubscribe id p)])
        (e₀.handle (.call (.unsubscribe id p))) past e →
      ∃ new, (e.handle (.incoming n (.publish q))).delivered = e.delivered ++ new ∧
        ∀ x ∈ new, ¬ e.Entitles f x := by
  intro always
  let e := (occupied.foldl handle {}).handle (.call (.unsubscribe 3 farewell))
  have entry : e.subscriptions.get? "a" = some { qos := .atMostOnce, handler := 0 } := by
    decide +kernel
  have handed : (e.handle (.incoming 1 (.publish bulletin))).delivered
      = e.delivered ++ [(0, .ofPublish bulletin)] := by
    decide +kernel
  obtain ⟨new, he, spared⟩ := always occupied _ _ e "a" 3 farewell 1 bulletin reachable_occupied
    possible_farewell (by simp [farewell]) .refl
  cases List.append_cancel_left (he.symm.trans handed)
  exact spared _ List.mem_cons_self ⟨_, entry, rfl, by decide +kernel⟩

end Engine

end MqttClient
